import Xv6Bfs.Library.Circle
import Xv6Bfs.Library.Tiling
import Xv6Bfs.Umalloc

/-!
# The user allocator keeps its list

The free blocks are a circle in address order through `base`; they and the blocks the program holds tile the memory that
`sbrk` gave. Each call is a step of the circle and of the tiling.
-/

namespace Xv6Bfs

open Finset Function

namespace Umalloc

open Circle Tiling

/-- The bytes of a block, of which the size is in units of a header. -/
def bytes (size : ℕ → ℕ) (a : ℕ) : ℕ := headerSize * size a

/-- The free list is a circle in address order through `base`, which has no bytes, and the other free blocks and the
live ones tile the memory `region`. -/
structure Arena (base : ℕ) (region : Set ℕ) (next size : ℕ → ℕ) (free live : Finset ℕ) : Prop where
  circle : IsCircle next free
  base_mem : base ∈ free
  base_size : size base = 0
  disjoint : Disjoint free live
  pos : ∀ a ∈ free.erase base ∪ live, 0 < size a
  tiles : Tiles (bytes size) (free.erase base ∪ live) region
  above : ∀ y ∈ region, base + headerSize ≤ y

/-- The block `a` ends where the block behind it in the list begins. -/
def Touches (next size : ℕ → ℕ) (a : ℕ) : Prop := next a ≠ a ∧ a + bytes size a = next a

lemma bytes_pos {size : ℕ → ℕ} {a : ℕ} (h : 0 < size a) : 0 < bytes size a :=
  Nat.mul_pos (by decide) h

lemma bytes_update (size : ℕ → ℕ) (a n : ℕ) :
    bytes (update size a n) = update (bytes size) a (headerSize * n) :=
  comp_update (headerSize * ·) size a n

namespace Arena

variable {base : ℕ} {region : Set ℕ} {next next' size size' : ℕ → ℕ} {free live : Finset ℕ}
  {a b p : ℕ}

lemma congr (h : Arena base region next size free live) (hnext : ∀ a ∈ free, next' a = next a)
    (hsize : ∀ a ∈ free ∪ live, size' a = size a) :
    Arena base region next' size' free live := by
  have hsub : ∀ a ∈ free.erase base ∪ live, size' a = size a := fun a ha =>
    hsize a (union_subset_union_left (erase_subset _ _) ha)
  exact {
    circle := h.circle.congr hnext
    base_mem := h.base_mem
    base_size := (hsize base (mem_union_left _ h.base_mem)).trans h.base_size
    disjoint := h.disjoint
    pos := fun a ha => by rw [hsub a ha]; exact h.pos a ha
    tiles := h.tiles.congr fun a ha => by rw [bytes, bytes, hsub a ha]
    above := h.above }

lemma mem_blocks (ha : a ∈ free ∪ live) (hne : a ≠ base) : a ∈ free.erase base ∪ live := by
  rcases mem_union.mp ha with ha | ha
  · exact mem_union_left _ (mem_erase.mpr ⟨hne, ha⟩)
  · exact mem_union_right _ ha

lemma base_not_live (h : Arena base region next size free live) : base ∉ live :=
  disjoint_left.mp h.disjoint h.base_mem

lemma base_lt (h : Arena base region next size free live) (ha : a ∈ free ∪ live)
    (hne : a ≠ base) : base < a := by
  have hmem := mem_blocks ha hne
  have := h.above a (h.tiles.start_mem hmem (bytes_pos (h.pos a hmem)))
  simp only [headerSize] at this
  omega

lemma base_le (h : Arena base region next size free live) (ha : a ∈ free ∪ live) : base ≤ a := by
  by_cases hne : a = base
  · exact hne.ge
  · exact (h.base_lt ha hne).le

lemma end_le (h : Arena base region next size free live) (ha : a ∈ free ∪ live)
    (hb : b ∈ free ∪ live) (hlt : a < b) : a + bytes size a ≤ b := by
  by_cases hbase : a = base
  · subst hbase
    simp only [bytes, h.base_size]
    omega
  have hb' : b ≠ base := by
    have := h.base_le ha
    omega
  exact h.tiles.apart a (mem_blocks ha hbase) b (mem_blocks hb hb') hlt

lemma next_eq_of_adjacent (h : Arena base region next size free live) (ha : a ∈ free)
    (hb : b ∈ free) (hne : a ≠ b) (hadj : a + bytes size a = b) : next a = b := by
  have hlt : a < b := by omega
  obtain ⟨hmem, ⟨hup, hno⟩ | hall⟩ := h.circle a ha
  · have hle := (hno b hb).resolve_left hlt.not_ge
    have := h.end_le (mem_union_left _ ha) (mem_union_left _ hmem) hup
    omega
  · exact absurd (hall b hb).2 hlt.not_ge

lemma not_adjacent (h : Arena base region next size free live)
    (htouch : ∀ a ∈ free, ¬ Touches next size a) (ha : a ∈ free) (hb : b ∈ free) (hne : a ≠ b) :
    a + bytes size a ≠ b := by
  intro hadj
  have hnext := h.next_eq_of_adjacent ha hb hne hadj
  exact htouch a ha ⟨hnext ▸ hne.symm, hadj.trans hnext.symm⟩

lemma link (h : Arena base region next size free live) (hp : p ∈ free) (hb : b ∈ live)
    (hgap : Between p b (next p)) :
    Arena base region (update (update next p b) b (next p)) size (insert b free)
      (live.erase b) := by
  have hfree : b ∉ free := fun hmem => disjoint_left.mp h.disjoint hmem hb
  have hbase : b ≠ base := fun heq => h.base_not_live (heq ▸ hb)
  have hblocks : (insert b free).erase base ∪ live.erase b = free.erase base ∪ live := by
    ext c
    simp only [mem_union, mem_erase, Finset.mem_insert]
    by_cases hcb : c = b
    · subst hcb
      simp [hbase, hb]
    · simp [hcb]
  exact {
    circle := h.circle.insert hp hfree hgap
    base_mem := mem_insert_of_mem h.base_mem
    base_size := h.base_size
    disjoint := by
      rw [disjoint_insert_left]
      exact ⟨notMem_erase _ _, h.disjoint.mono_right (erase_subset _ _)⟩
    pos := by rw [hblocks]; exact h.pos
    tiles := by rw [hblocks]; exact h.tiles
    above := h.above }

lemma absorb {c : ℕ} (h : Arena base region next size free live) (ha : a ∈ free)
    (htouch : Touches next size a) (hb : next a = b) (hc : next b = c) :
    Arena base region (update next a c) (update size a (size a + size b))
      (free.erase b) live := by
  subst hb hc
  obtain ⟨hne, hadj⟩ := htouch
  have hmem := h.circle.next_mem ha
  have habase : a ≠ base := by
    rintro rfl
    rw [bytes, h.base_size] at hadj
    omega
  have hlt := h.base_lt (mem_union_left _ ha) habase
  have hnbase : next a ≠ base := by omega
  have hblocks : (free.erase (next a)).erase base ∪ live = (free.erase base ∪ live).erase (next a) := by
    rw [erase_union_distrib, erase_right_comm, erase_eq_of_notMem
      (fun hlive => disjoint_left.mp h.disjoint hmem hlive)]
  have hmem' := mem_blocks (mem_union_left live ha) habase
  exact {
    circle := h.circle.erase ha hne
    base_mem := mem_erase.mpr ⟨hnbase.symm, h.base_mem⟩
    base_size := by rw [update_of_ne habase.symm, h.base_size]
    disjoint := h.disjoint.mono_left (erase_subset _ _)
    pos := by
      rw [hblocks]
      intro b hb
      have hpos := h.pos b (mem_of_mem_erase hb)
      by_cases hba : b = a
      · subst hba
        rw [update_self]
        omega
      · rwa [update_of_ne hba]
    tiles := by
      rw [hblocks, bytes_update, Nat.mul_add]
      exact h.tiles.merge hmem' (mem_blocks (mem_union_left _ hmem) hnbase)
        (bytes_pos (h.pos a hmem')) hadj
    above := h.above }

lemma touches_absorb {c d : ℕ} (h : Arena base region next size free live) (ha : a ∈ free)
    (htouch : Touches next size a) (hb : next a = b) (hc : next b = c)
    (hd : Touches (update next a c) (update size a (size a + size b)) d) :
    Touches next size (if d = a then b else d) := by
  subst hb hc
  obtain ⟨hne, hadj⟩ := hd
  split_ifs with hda
  · subst hda
    refine ⟨h.circle.next_ne (h.circle.next_mem ha) ha htouch.1, ?_⟩
    have hend := htouch.2
    simp only [bytes, update_self, Nat.mul_add] at hadj hend ⊢
    omega
  · rw [update_of_ne hda] at hne hadj
    rw [bytes_update, update_of_ne hda] at hadj
    exact ⟨hne, hadj⟩

end Arena

namespace Heap

variable (h : Heap) (p v : ℕ)

@[simp] lemma ptr_setPtr : (h.setPtr p v).ptr = update h.ptr p v :=
  comp_update Header.ptr h.mem p ⟨v, h.size p⟩

@[simp] lemma size_setPtr : (h.setPtr p v).size = h.size :=
  (comp_update Header.size h.mem p ⟨v, h.size p⟩).trans (update_eq_self p _)

@[simp] lemma ptr_setSize : (h.setSize p v).ptr = h.ptr :=
  (comp_update Header.ptr h.mem p ⟨h.ptr p, v⟩).trans (update_eq_self p _)

@[simp] lemma size_setSize : (h.setSize p v).size = update h.size p v :=
  comp_update Header.size h.mem p ⟨h.ptr p, v⟩

@[simp] lemma ptr_setFreep : (h.setFreep v).ptr = h.ptr := rfl

@[simp] lemma size_setFreep : (h.setFreep v).size = h.size := rfl

@[simp] lemma obtained_joinUpper (bp : ℕ) : (h.joinUpper bp p).obtained = h.obtained := by
  unfold joinUpper
  split_ifs <;> rfl

@[simp] lemma obtained_joinLower (bp : ℕ) : (h.joinLower bp p).obtained = h.obtained := by
  unfold joinLower
  split_ifs <;> rfl

@[simp] lemma brk_joinUpper (bp : ℕ) : (h.joinUpper bp p).brk = h.brk := by
  unfold joinUpper
  split_ifs <;> rfl

@[simp] lemma brk_joinLower (bp : ℕ) : (h.joinLower bp p).brk = h.brk := by
  unfold joinLower
  split_ifs <;> rfl

def region : Set ℕ := { y | ∃ g ∈ h.obtained, g.1 ≤ y ∧ y < g.1 + g.2 }

end Heap

/-- The list of a heap that is in use: no two blocks touch, and all lie below the break. -/
structure Shape (base : ℕ) (h : Heap) (free live : Finset ℕ) : Prop
    extends Arena base h.region h.ptr h.size free live where
  freep_mem : h.freep ∈ free
  separate : ∀ a ∈ free, ¬ Touches h.ptr h.size a
  below : ∀ y ∈ h.region, y < h.brk
  base_below : base + headerSize ≤ h.brk

section Free

variable {base bp p : ℕ} {h : Heap} {free live : Finset ℕ}

lemma freeLoop_eq {fuel k : ℕ} (hc : IsCircle h.ptr free) (hp : p ∈ free) (hfuel : k < fuel)
    (hk : Between (h.ptr^[k] p) bp (h.ptr (h.ptr^[k] p))) :
    ∃ q ∈ free, h.freeLoop bp fuel p = some q ∧ Between q bp (h.ptr q) := by
  induction k generalizing p fuel with
  | zero =>
    obtain ⟨fuel, rfl⟩ := Nat.exists_eq_succ_of_ne_zero (Nat.ne_zero_of_lt hfuel)
    refine ⟨p, hp, ?_, hk⟩
    rw [Heap.freeLoop]
    split_ifs with hin hwrap
    · rfl
    · rfl
    · exact absurd hk (not_or.mpr ⟨hin, hwrap⟩)
  | succ k ih =>
    obtain ⟨fuel, rfl⟩ := Nat.exists_eq_succ_of_ne_zero (Nat.ne_zero_of_lt hfuel)
    rw [Heap.freeLoop]
    split_ifs with hin hwrap
    · exact ⟨p, hp, rfl, .inl hin⟩
    · exact ⟨p, hp, rfl, .inr hwrap⟩
    · exact ih (hc.next_mem hp) (by omega) hk

/-- The state between the two joins of `free`: the block is in the list, though the link of `p` is
still to be set, and only `p` may touch the block behind it. -/
structure Half (base : ℕ) (region : Set ℕ) (h : Heap) (bp p : ℕ) (free live : Finset ℕ) : Prop where
  arena : Arena base region (update h.ptr p bp) h.size free live
  bp_mem : bp ∈ free
  p_mem : p ∈ free
  separate : ∀ a ∈ free, a ≠ p → ¬ Touches (update h.ptr p bp) h.size a

lemma Shape.joinUpper (hs : Shape base h free live) (hp : p ∈ free) (hb : bp ∈ live)
    (hgap : Between p bp (h.ptr p)) :
    ∃ free' ⊆ insert bp free, Half base h.region (h.joinUpper bp p) bp p free' (live.erase bp) ∧
      (∀ a ∈ live.erase bp, (h.joinUpper bp p).size a = h.size a) ∧
      h.size bp ≤ (h.joinUpper bp p).size bp := by
  have hpb : p ≠ bp := fun heq => disjoint_left.mp hs.disjoint (heq ▸ hp) hb
  have hq := hs.circle.next_mem hp
  have hqb : h.ptr p ≠ bp := fun heq => disjoint_left.mp hs.disjoint (heq ▸ hq) hb
  have hlink := hs.toArena.link hp hb hgap
  -- away from `p` and the new block the links are the old ones
  have hold : ∀ a ∈ free, a ≠ p → a ≠ bp → ¬ Touches
      (update (update h.ptr p bp) bp (h.ptr p)) h.size a := by
    intro a ha hap hab htouch
    refine hs.separate a ha ?_
    rwa [Touches, update_of_ne hab, update_of_ne hap] at htouch
  rw [Heap.joinUpper]
  split_ifs with hadj
  · -- the upper neighbour is another block than `p`: only `base` is alone, and it lies below
    have hqp : h.ptr p ≠ p := by
      intro hqp
      have hall : ∀ c ∈ free, c = p := by
        intro c hc
        by_contra hcp
        exact hs.circle.next_ne hp hc (Ne.symm hcp) hqp
      have hlt := hs.toArena.base_lt (mem_union_right _ hb)
        (fun heq => hs.toArena.base_not_live (heq ▸ hb))
      have := hall base hs.base_mem
      omega
    have hbp : update (update h.ptr p bp) bp (h.ptr p) bp = h.ptr p :=
      update_self _ _ _
    have hqq : update (update h.ptr p bp) bp (h.ptr p) (h.ptr p) = h.ptr (h.ptr p) := by
      rw [update_of_ne hqb, update_of_ne hqp]
    have htouch : Touches (update (update h.ptr p bp) bp (h.ptr p)) h.size bp := by
      rw [Touches, hbp]
      exact ⟨hqb, hadj⟩
    have hlinks : (update (update (update h.ptr p bp) bp (h.ptr p)) bp
        (h.ptr (h.ptr p))) = update (update h.ptr bp (h.ptr (h.ptr p))) p bp := by
      rw [update_idem, update_comm hpb]
    have hself := mem_insert_self bp free
    refine ⟨(insert bp free).erase (h.ptr p), erase_subset _ _, ⟨?_, ?_, ?_, ?_⟩, ?_, ?_⟩
    · have habsorb := hlink.absorb hself htouch hbp hqq
      rw [hlinks] at habsorb
      simpa using habsorb
    · exact mem_erase.mpr ⟨hqb.symm, hself⟩
    · exact mem_erase.mpr ⟨hqp.symm, mem_insert_of_mem hp⟩
    · intro a ha hap htouch'
      simp only [Heap.ptr_setPtr, Heap.size_setPtr, Heap.ptr_setSize, Heap.size_setSize,
        ← hlinks] at htouch'
      have htouch'' := hlink.touches_absorb hself htouch hbp hqq htouch'
      split_ifs at htouch'' with hab
      · exact hold _ hq hqp hqb htouch''
      · have hmem := mem_of_mem_insert_of_ne (mem_of_mem_erase ha) hab
        exact hold a hmem hap hab htouch''
    · intro a ha
      simp [update_of_ne (ne_of_mem_erase ha)]
    · simp
  · refine ⟨insert bp free, subset_rfl,
      ⟨?_, mem_insert_self _ _, mem_insert_of_mem hp, ?_⟩, fun a _ => by simp, by simp⟩
    · rw [Heap.ptr_setPtr, Heap.size_setPtr, update_comm hpb.symm]
      exact hlink
    · intro a ha hap
      rw [Heap.ptr_setPtr, Heap.size_setPtr, update_comm hpb.symm]
      rcases Finset.mem_insert.mp ha with rfl | ha
      · rintro ⟨-, htouch⟩
        rw [update_self] at htouch
        exact hadj htouch
      · exact hold a ha hap fun heq => disjoint_left.mp hs.disjoint (heq ▸ ha) hb

lemma Half.joinLower {region : Set ℕ} (hh : Half base region h bp p free live) (hpb : p ≠ bp) :
    ∃ free' ⊆ free, Arena base region (h.joinLower bp p).ptr (h.joinLower bp p).size free' live ∧
      p ∈ free' ∧ (∀ a ∈ free', ¬ Touches (h.joinLower bp p).ptr (h.joinLower bp p).size a) ∧
      (∀ a ∈ live, (h.joinLower bp p).size a = h.size a) ∧
      ∃ a ∈ free', h.size bp ≤ (h.joinLower bp p).size a := by
  have hnext : update h.ptr p bp p = bp := update_self _ _ _
  rw [Heap.joinLower]
  split_ifs with hadj
  · have htouch : Touches (update h.ptr p bp) h.size p := by
      rw [Touches, hnext]
      exact ⟨hpb.symm, hadj⟩
    have hbp : update h.ptr p bp bp = h.ptr bp := update_of_ne hpb.symm _ _
    have hlinks : update (update h.ptr p bp) p (h.ptr bp) = update h.ptr p (h.ptr bp) := update_idem _ _ _
    have habsorb := hh.arena.absorb hh.p_mem htouch hnext hbp
    have hp : p ∈ free.erase bp := mem_erase.mpr ⟨hpb, hh.p_mem⟩
    rw [hlinks] at habsorb
    refine ⟨free.erase bp, erase_subset _ _, by simpa using habsorb, hp, ?_, ?_, p, hp, by simp⟩
    · intro a ha htouch'
      simp only [Heap.ptr_setPtr, Heap.size_setPtr, Heap.ptr_setSize, Heap.size_setSize,
        ← hlinks] at htouch'
      have htouch'' := hh.arena.touches_absorb hh.p_mem htouch hnext hbp htouch'
      split_ifs at htouch'' with hap
      · exact hh.separate bp hh.bp_mem hpb.symm htouch''
      · exact hh.separate a (mem_of_mem_erase ha) hap htouch''
    intro a ha
    have hap : a ≠ p := fun heq => disjoint_left.mp hh.arena.disjoint (heq ▸ hh.p_mem) ha
    simp [update_of_ne hap]
  · refine ⟨free, subset_rfl, by simpa using hh.arena, hh.p_mem, ?_, fun a _ => by simp, bp, hh.bp_mem,
      by simp⟩
    intro a ha
    rw [Heap.ptr_setPtr, Heap.size_setPtr]
    by_cases hap : a = p
    · subst hap
      rintro ⟨-, htouch⟩
      rw [hnext] at htouch
      exact hadj htouch
    · exact hh.separate a ha hap

lemma Shape.lt_brk (hs : Shape base h free live) {a : ℕ} (ha : a ∈ free ∪ live) : a < h.brk := by
  by_cases hbase : a = base
  · have := hs.base_below
    simp only [headerSize] at this
    omega
  · have hmem := Arena.mem_blocks ha hbase
    exact hs.below a (hs.tiles.start_mem hmem (bytes_pos (hs.pos a hmem)))

lemma Shape.card_le (hs : Shape base h free live) : free.card ≤ h.brk := by
  have hsub : free ⊆ Finset.range h.brk := fun a ha =>
    mem_range.mpr (hs.lt_brk (mem_union_left _ ha))
  simpa using card_le_card hsub

/-- `free` returns and moves the block to the free list, perhaps as part of a larger one. -/
lemma Shape.free_spec (hs : Shape base h free live) (hb : bp ∈ live) :
    ∃ h' free', h.free (bp + headerSize) = some h' ∧ Shape base h' free' (live.erase bp) ∧
      free' ⊆ insert bp free ∧ h'.obtained = h.obtained ∧
      (∀ a ∈ live.erase bp, h'.size a = h.size a) ∧ ∃ a ∈ free', h.size bp ≤ h'.size a := by
  have hfree : bp ∉ free := fun hmem => disjoint_left.mp hs.disjoint hmem hb
  obtain ⟨q, hq, hgap⟩ := hs.circle.exists_between ⟨base, hs.base_mem⟩ hfree
  obtain ⟨k, hk, rfl⟩ := hs.circle.exists_iterate hs.freep_mem hq
  have hfuel : k < h.fuel := by
    have := hs.card_le
    rw [Heap.fuel]
    omega
  obtain ⟨p, hp, hloop, hgap⟩ := freeLoop_eq hs.circle hs.freep_mem hfuel hgap
  obtain ⟨free₁, hsub₁, hhalf, hsize₁, hfit₁⟩ := hs.joinUpper hp hb hgap
  have hpb : p ≠ bp := fun heq => hfree (heq ▸ hp)
  obtain ⟨free₂, hsub₂, harena, hpmem, hsep, hsize₂, a, ha, hfit₂⟩ := hhalf.joinLower hpb
  have hregion : (((h.joinUpper bp p).joinLower bp p).setFreep p).region = h.region := by
    simp [Heap.region, Heap.setFreep]
  refine ⟨((h.joinUpper bp p).joinLower bp p).setFreep p, free₂, ?_, ?_, hsub₂.trans hsub₁,
    by simp [Heap.setFreep], fun b hb => (hsize₂ b hb).trans (hsize₁ b hb), a, ha,
    hfit₁.trans hfit₂⟩
  · rw [Heap.free, Nat.add_sub_cancel, hloop]
    rfl
  · exact {
      toArena := by rw [hregion]; exact harena
      freep_mem := hpmem
      separate := hsep
      below := by rw [hregion]; simpa [Heap.setFreep] using hs.below
      base_below := by simpa [Heap.setFreep] using hs.base_below }

end Free

section Malloc

variable {base p prevp n : ℕ} {h h' : Heap} {free live : Finset ℕ} {answer : ℕ → Option ℕ}

lemma Shape.of_arena {next size : ℕ → ℕ}
    (harena : Arena base h'.region next size free live)
    (hapart : ∀ a ∈ free, ∀ b ∈ free, a ≠ b → a + bytes size a ≠ b) (hptr : h'.ptr = next)
    (hsize : h'.size = size) (hfreep : h'.freep ∈ free) (hbelow : ∀ y ∈ h'.region, y < h'.brk)
    (hbase : base + headerSize ≤ h'.brk) : Shape base h' free live := by
  subst hptr hsize
  exact {
    toArena := harena
    freep_mem := hfreep
    separate := fun a ha htouch =>
      hapart a ha _ (harena.circle.next_mem ha) htouch.1.symm htouch.2
    below := hbelow
    base_below := hbase }

lemma Shape.apart (hs : Shape base h free live) {a b : ℕ} (ha : a ∈ free) (hb : b ∈ free)
    (hne : a ≠ b) : a + bytes h.size a ≠ b :=
  hs.toArena.not_adjacent hs.separate ha hb hne

lemma Shape.unlink (hs : Shape base h free live) (hprev : prevp ∈ free) (hp : h.ptr prevp = p)
    (hpos : 0 < h.size p) :
    Shape base ((h.setPtr prevp (h.ptr p)).setFreep prevp) (free.erase p) (insert p live) := by
  subst hp
  have hmem := hs.circle.next_mem hprev
  have hbase : h.ptr prevp ≠ base := by
    intro heq
    rw [heq, hs.base_size] at hpos
    exact absurd hpos (lt_irrefl 0)
  have hne : h.ptr prevp ≠ prevp := by
    intro heq
    by_cases hpb : prevp = base
    · exact hbase (heq.trans hpb)
    · exact hs.circle.next_ne hprev hs.base_mem hpb heq
  have hblocks : (free.erase (h.ptr prevp)).erase base ∪ insert (h.ptr prevp) live =
      free.erase base ∪ live := by
    ext c
    simp only [mem_union, mem_erase, Finset.mem_insert]
    by_cases hc : c = h.ptr prevp
    · simp [hc, hbase, hmem]
    · simp [hc]
  have harena : Arena base h.region (update h.ptr prevp (h.ptr (h.ptr prevp))) h.size
      (free.erase (h.ptr prevp)) (insert (h.ptr prevp) live) := {
    circle := hs.circle.erase hprev hne
    base_mem := mem_erase.mpr ⟨hbase.symm, hs.base_mem⟩
    base_size := hs.base_size
    disjoint := by
      rw [disjoint_insert_right]
      exact ⟨notMem_erase _ _, hs.disjoint.mono_left (erase_subset _ _)⟩
    pos := by rw [hblocks]; exact hs.pos
    tiles := by rw [hblocks]; exact hs.tiles
    above := hs.above }
  refine Shape.of_arena harena ?_ (by simp) (by simp) ?_ hs.below hs.base_below
  · intro a ha b hb hab
    exact hs.apart (mem_of_mem_erase ha) (mem_of_mem_erase hb) hab
  · exact mem_erase.mpr ⟨hne.symm, hprev⟩

lemma Shape.cut (hs : Shape base h free live) (hprev : prevp ∈ free) (hp : p ∈ free)
    (hn : 0 < n) (hlt : n < h.size p) :
    p + headerSize * (h.size p - n) ∉ free ∪ live ∧
    Shape base (((h.setSize p (h.size p - n)).setSize (p + headerSize * (h.size p - n)) n).setFreep
      prevp) free (insert (p + headerSize * (h.size p - n)) live) := by
  have hbase : p ≠ base := by
    rintro rfl
    rw [hs.base_size] at hlt
    omega
  have hpmem := Arena.mem_blocks (mem_union_left live hp) hbase
  have hbp := hs.toArena.base_lt (mem_union_left live hp) hbase
  -- the new block starts inside the old one
  have hinside : ∀ a ∈ free ∪ live, a ≠ p + headerSize * (h.size p - n) := by
    intro a ha heq
    have hend := hs.toArena.end_le (mem_union_left _ hp) ha
      (by simp only [headerSize] at heq; omega)
    simp only [bytes, headerSize] at hend heq
    omega
  have hnew : p + headerSize * (h.size p - n) ∉ free ∪ live := fun hmem => hinside _ hmem rfl
  refine ⟨hnew, ?_⟩
  have hblocks : free.erase base ∪ insert (p + headerSize * (h.size p - n)) live =
      insert (p + headerSize * (h.size p - n)) (free.erase base ∪ live) := by
    rw [union_insert]
  have harena : Arena base h.region h.ptr (update (update h.size p (h.size p - n))
      (p + headerSize * (h.size p - n)) n) free (insert (p + headerSize * (h.size p - n)) live) := {
    circle := hs.circle
    base_mem := hs.base_mem
    base_size := by
      rw [update_of_ne (hinside base (mem_union_left _ hs.base_mem)), update_of_ne hbase.symm, hs.base_size]
    disjoint := by
      rw [disjoint_insert_right]
      exact ⟨fun hmem => hnew (mem_union_left _ hmem), hs.disjoint⟩
    pos := by
      rw [hblocks]
      intro a ha
      rcases Finset.mem_insert.mp ha with rfl | ha
      · rwa [update_self]
      · have ha' : a ∈ free ∪ live :=
          union_subset_union_left (erase_subset _ _) ha
        rw [update_of_ne (hinside a ha')]
        by_cases hap : a = p
        · subst hap
          rw [update_self]
          omega
        · rw [update_of_ne hap]
          exact hs.pos a ha
    tiles := by
      rw [hblocks, bytes_update, bytes_update, Nat.mul_sub]
      refine hs.tiles.split hpmem (by simp only [headerSize]; omega) ?_
      simp only [bytes, headerSize]
      omega
    above := hs.above }
  refine Shape.of_arena harena ?_ (by simp) (by simp) hprev hs.below hs.base_below
  intro a ha b hb hab
  rw [bytes_update, bytes_update, update_of_ne (hinside a (mem_union_left _ ha))]
  by_cases hap : a = p
  · subst hap
    rw [update_self]
    exact (hinside b (mem_union_left _ hb)).symm
  · rw [update_of_ne hap]
    exact hs.apart ha hb hab

/-- What a call of `malloc` for `n` units makes of a heap with live blocks `live`: nothing is handed
out, or one new block of this size is. -/
def Served (base n : ℕ) (h : Heap) (live : Finset ℕ) (r : ℕ × Heap) : Prop :=
  (∀ a ∈ live, r.2.size a = h.size a) ∧ ((r.1 = 0 ∧ ∃ free, Shape base r.2 free live) ∨
      ∃ q free, r.1 = q + headerSize ∧ q ∉ live ∧ r.2.size q = n ∧ Shape base r.2 free (insert q live))

lemma Shape.carve_served (hs : Shape base h free live) (hprev : prevp ∈ free)
    (hp : h.ptr prevp = p) (hn : 0 < n) (hfit : n ≤ h.size p) :
    Served base n h live (h.carve n prevp p) := by
  have hmem : p ∈ free := hp ▸ hs.circle.next_mem hprev
  have hlive : ∀ a ∈ live, a ≠ p := fun a ha heq =>
    disjoint_left.mp hs.disjoint (heq ▸ hmem) ha
  rw [Heap.carve]
  split_ifs with heq
  · refine ⟨fun a _ => by simp, .inr ⟨p, free.erase p, rfl, fun hmem' => hlive p hmem' rfl, ?_, ?_⟩⟩
    · simpa using heq
    · exact hs.unlink hprev hp (by omega)
  · obtain ⟨hnew, hshape⟩ := hs.cut hprev hmem hn (by omega)
    have hsize : (h.setSize p (h.size p - n)).size p = h.size p - n := by simp
    simp only [hsize]
    refine ⟨fun a ha => ?_, .inr ⟨_, free, rfl, fun hmem' => hnew (mem_union_right _ hmem'),
      by simp, hshape⟩⟩
    have hne : a ≠ p + headerSize * (h.size p - n) := fun heq' =>
      hnew (heq' ▸ mem_union_right _ ha)
    simp [update_of_ne hne, update_of_ne (hlive a ha)]

lemma mallocLoop_scan (answer : ℕ → Option ℕ) (n : ℕ) {fuel k : ℕ} (hc : IsCircle h.ptr free) (hprev : prevp ∈ free)
    (hp : h.ptr prevp = p) (hk : k ≤ fuel) (hno : ∀ j < k, h.ptr^[j] p ≠ h.freep) :
    (∃ prevp' ∈ free, n ≤ h.size (h.ptr prevp') ∧ mallocLoop answer n fuel prevp p h =
      some (h.carve n prevp' (h.ptr prevp'))) ∨
    ∃ prevp' ∈ free, h.ptr prevp' = h.ptr^[k] p ∧ mallocLoop answer n fuel prevp p h =
      mallocLoop answer n (fuel - k) prevp' (h.ptr^[k] p) h := by
  induction k generalizing prevp p fuel with
  | zero => exact .inr ⟨prevp, hprev, hp, rfl⟩
  | succ k ih =>
    obtain ⟨fuel, rfl⟩ : ∃ m, fuel = m + 1 := ⟨fuel - 1, by omega⟩
    subst hp
    rw [mallocLoop]
    split_ifs with hfit hfreep
    · exact .inl ⟨prevp, hprev, hfit, rfl⟩
    · exact absurd hfreep (hno 0 (by omega))
    · have hrest := ih (hc.next_mem hprev) rfl (show k ≤ fuel by omega) fun j hj => by
        have := hno (j + 1) (by omega)
        rwa [iterate_succ_apply] at this
      rwa [iterate_succ_apply, Nat.add_sub_add_right]

lemma Shape.mallocLoop_fit (answer : ℕ → Option ℕ) {fuel a : ℕ} (hs : Shape base h free live) (hn : 0 < n) (ha : a ∈ free)
    (hfit : n ≤ h.size a) (hfuel : 2 * free.card ≤ fuel) :
    ∃ r, mallocLoop answer n fuel h.freep (h.ptr h.freep) h = some r ∧ Served base n h live r := by
  obtain ⟨k, hk, rfl, hno⟩ := hs.circle.exists_first hs.freep_mem ha
  have hscan := mallocLoop_scan answer n hs.circle hs.freep_mem rfl (show k ≤ fuel by omega) hno
  rcases hscan with ⟨prevp, hprev, hfit', hloop⟩ | ⟨prevp, hprev, hp, hloop⟩
  · exact ⟨_, hloop, hs.carve_served hprev rfl hn hfit'⟩
  · obtain ⟨m, hm⟩ : ∃ m, fuel - k = m + 1 := ⟨fuel - k - 1, by omega⟩
    refine ⟨_, ?_, hs.carve_served hprev hp hn hfit⟩
    rw [hloop, hm, mallocLoop, if_pos hfit]

lemma Shape.grow (gap : ℕ) (hs : Shape base h free live) (hn : 0 < n) :
    Shape base ((h.grow gap (n * headerSize)).setSize (h.brk + gap) n) free
      (insert (h.brk + gap) live) := by
  have hfresh : ∀ a ∈ free ∪ live, a ≠ h.brk + gap := by
    intro a ha heq
    have := hs.lt_brk ha
    omega
  have hold : ∀ a ∈ free ∪ live, update h.size (h.brk + gap) n a = h.size a := fun a ha =>
    update_of_ne (hfresh a ha) _ _
  have hself : bytes (update h.size (h.brk + gap) n) (h.brk + gap) = n * headerSize := by
    rw [bytes, update_self, Nat.mul_comm]
  have hregion : ((h.grow gap (n * headerSize)).setSize (h.brk + gap) n).region = h.region ∪
      block (bytes (update h.size (h.brk + gap) n)) (h.brk + gap) := by
    ext y
    simp only [Heap.region, Heap.setSize, Heap.grow, List.exists_mem_cons_iff, block, hself,
      Set.mem_union, Set.mem_Ico, Set.mem_ofPred_eq]
    exact or_comm
  have hold' := hs.toArena.congr (fun _ _ => rfl) hold
  have hblocks : free.erase base ∪ insert (h.brk + gap) live =
      insert (h.brk + gap) (free.erase base ∪ live) := union_insert _ _ _
  have harena : Arena base (h.region ∪ block (bytes (update h.size (h.brk + gap) n))
      (h.brk + gap)) h.ptr (update h.size (h.brk + gap) n) free
      (insert (h.brk + gap) live) := {
    circle := hs.circle
    base_mem := hs.base_mem
    base_size := hold'.base_size
    disjoint := by
      rw [disjoint_insert_right]
      exact ⟨fun hmem => hfresh _ (mem_union_left _ hmem) rfl, hs.disjoint⟩
    pos := by
      rw [hblocks]
      intro a ha
      rcases Finset.mem_insert.mp ha with rfl | ha
      · rwa [update_self]
      · exact hold'.pos a ha
    tiles := by
      rw [hblocks]
      refine hold'.tiles.insert (fun b hb => bytes_pos (hold'.pos b hb)) fun y hy => ?_
      have := hs.below y hy
      omega
    above := by
      rintro y (hy | ⟨hy, -⟩)
      · exact hs.above y hy
      · have := hs.base_below
        omega }
  refine Shape.of_arena (hregion ▸ harena) ?_ (by simp; rfl) (by simp; rfl) hs.freep_mem ?_ ?_
  · intro a ha b hb hab
    rw [bytes, hold a (mem_union_left _ ha)]
    exact hs.apart ha hb hab
  · rw [hregion]
    rintro y (hy | ⟨-, hy⟩)
    · have := hs.below y hy
      simp only [Heap.setSize, Heap.grow]
      omega
    · rwa [hself] at hy
  · have := hs.base_below
    simp only [Heap.setSize, Heap.grow]
    omega

/-- `morecore` gives up or adds a free block that is large enough. -/
lemma Shape.morecore_spec (answer : ℕ → Option ℕ) (hs : Shape base h free live) (hbase : 0 < base) (hn : 0 < n)
    (hsmall : n * headerSize < 2 ^ 32) :
    ∃ r, h.morecore answer n = some r ∧ (∀ a ∈ live, r.2.size a = h.size a) ∧
      ((r.1 = 0 ∧ Shape base r.2 free live) ∨
        (r.1 ≠ 0 ∧ r.1 = r.2.freep ∧ ∃ free', Shape base r.2 free' live ∧
          free'.card ≤ free.card + 1 ∧ ∃ a ∈ free', n ≤ r.2.size a)) := by
  set nu := if n < 4096 then 4096 else n with hnu
  have hle : n ≤ nu := by
    rw [hnu]
    split_ifs <;> omega
  have hbytes : nu * headerSize % 2 ^ 32 = nu * headerSize := by
    refine Nat.mod_eq_of_lt ?_
    rw [hnu]
    split_ifs
    · decide
    · exact hsmall
  rw [Heap.morecore, ← hnu, hbytes, Heap.sbrk]
  cases answer h.calls with
  | none =>
    refine ⟨_, rfl, fun _ _ => rfl, .inl ⟨rfl, ?_⟩⟩
    exact { hs with }
  | some gap =>
    have hgrow := hs.grow gap (lt_of_lt_of_le hn hle)
    have hnew : h.brk + gap ∉ live := by
      intro hmem
      have := hs.lt_brk (mem_union_right _ hmem)
      omega
    obtain ⟨h', free', hfree, hshape, hsub, -, hsize, a, ha, hfit⟩ :=
      hgrow.free_spec (mem_insert_self _ _)
    rw [erase_insert hnew] at hshape hsize
    refine ⟨(h'.freep, h'), ?_, fun b hb => ?_, .inr ⟨?_, rfl, free', hshape, ?_, a, ha, ?_⟩⟩
    · simp only [hfree]
      rfl
    · have hne : b ≠ h.brk + gap := fun heq => hnew (heq ▸ hb)
      rw [hsize b hb, Heap.size_setSize, update_of_ne hne]
      rfl
    · have := hshape.toArena.base_le (mem_union_left _ hshape.freep_mem)
      dsimp only
      omega
    · exact (card_le_card hsub).trans (card_insert_le _ _)
    · rw [Heap.size_setSize, update_self] at hfit
      exact hle.trans hfit

lemma Shape.mallocLoop_served (answer : ℕ → Option ℕ) (hs : Shape base h free live) (hbase : 0 < base) (hn : 0 < n)
    (hsmall : n * headerSize < 2 ^ 32) :
    ∃ r, mallocLoop answer n h.fuel h.freep (h.ptr h.freep) h = some r ∧ Served base n h live r := by
  have hcard := hs.card_le
  obtain ⟨k, hk, hround, hno⟩ := hs.circle.exists_first hs.freep_mem hs.freep_mem
  have hfuel : k ≤ h.fuel := by
    rw [Heap.fuel]
    omega
  rcases mallocLoop_scan answer n hs.circle hs.freep_mem rfl hfuel hno with
    ⟨prevp, hprev, hfit, hloop⟩ | ⟨prevp, hprev, hp, hloop⟩
  · exact ⟨_, hloop, hs.carve_served hprev rfl hn hfit⟩
  rw [hround] at hp hloop
  obtain ⟨m, hm⟩ : ∃ m, h.fuel - k = m + 1 := ⟨h.fuel - k - 1, by rw [Heap.fuel] at hfuel ⊢; omega⟩
  rw [hloop, hm, mallocLoop]
  by_cases hfit : h.size h.freep ≥ n
  · rw [if_pos hfit]
    exact ⟨_, rfl, hs.carve_served hprev hp hn hfit⟩
  rw [if_neg hfit, if_pos rfl]
  obtain ⟨⟨p, h'⟩, hcore, hsize, ⟨rfl, hshape⟩ | ⟨hne, hp', free', hshape, hcard', a, ha, hfit'⟩⟩ :=
    hs.morecore_spec answer hbase hn hsmall
  · refine ⟨(0, h'), ?_, hsize, .inl ⟨rfl, free, hshape⟩⟩
    rw [hcore]
    rfl
  · dsimp only at hne hp' hsize hfit'
    have hfuel' : 2 * free'.card ≤ m := by
      rw [Heap.fuel] at hm
      omega
    obtain ⟨r, hr, hkeep, hserved⟩ := hshape.mallocLoop_fit answer hn ha hfit' hfuel'
    refine ⟨r, ?_, fun b hb => (hkeep b hb).trans (hsize b hb), hserved⟩
    rw [hcore]
    subst hp'
    change (if h'.freep = 0 then some (0, h') else
      mallocLoop answer n m h'.freep (h'.ptr h'.freep) h') = some r
    rw [if_neg hne, hr]

end Malloc

section Program

variable {base n hp : ℕ} {h : Heap} {free : Finset ℕ} {answer : ℕ → Option ℕ} {x x' : Program}

/-- The state of the allocator under a program: before the first call of `malloc` there is no list
and no memory, and afterwards there is a list in shape. Every block the program holds has room for
what it asked for. -/
structure Ok (base : ℕ) (x : Program) (free : Finset ℕ) : Prop where
  base_pos : 0 < base
  shape : x.heap.freep = 0 ∧ x.heap.obtained = [] ∧ x.live = ∅ ∧ free = ∅ ∧
    base + headerSize ≤ x.heap.brk ∨ Shape base x.heap free x.live
  room : ∀ hp ∈ x.live, x.want hp + headerSize ≤ headerSize * x.heap.size hp

lemma region_eq_empty (h : Heap) (hnil : h.obtained = []) : h.region = ∅ := by
  ext y
  simp [Heap.region, hnil]

lemma shape_init (hfreep : h.freep = 0) (hnil : h.obtained = []) (hbrk : base + headerSize ≤ h.brk) :
    Shape base (h.init base) {base} ∅ := by
  have hinit : h.init base = ((h.setPtr base base).setFreep base).setSize base 0 := if_pos hfreep
  have hregion : (h.init base).region = ∅ := region_eq_empty _ (by rw [hinit]; exact hnil)
  have hptr : (h.init base).ptr base = base := by simp [hinit]
  have hsize : (h.init base).size base = 0 := by simp [hinit]
  have hblocks : ({base} : Finset ℕ).erase base ∪ ∅ = ∅ := by simp
  have harena : Arena base (h.init base).region (h.init base).ptr (h.init base).size {base} ∅ := {
    circle := isCircle_singleton hptr
    base_mem := mem_singleton_self _
    base_size := hsize
    disjoint := disjoint_empty_right _
    pos := by simp
    tiles := by
      rw [hblocks, hregion]
      exact ⟨by simp, by simp⟩
    above := by simp [hregion] }
  refine Shape.of_arena harena ?_ rfl rfl ?_ (by simp [hregion]) (by rw [hinit]; exact hbrk)
  · intro a ha b hb hab
    rw [mem_singleton] at ha hb
    exact absurd (ha.trans hb.symm) hab
  · rw [hinit]
    exact mem_singleton_self _

lemma nunits_eq (hsmall : Small n) : nunits n = (n + headerSize - 1) / headerSize + 1 := by
  rw [nunits, Nat.mod_eq_of_lt]
  simp only [Small, headerSize] at hsmall ⊢
  omega

lemma Ok.malloc_served (answer : ℕ → Option ℕ) (hok : Ok base x free) (hsmall : Small n) :
    ∃ r, malloc base answer n x.heap = some r ∧ Served base (nunits n) x.heap x.live r := by
  have hpos : 0 < nunits n := Nat.succ_pos _
  have hbytes : nunits n * headerSize < 2 ^ 32 := by
    rw [nunits_eq hsmall]
    exact hsmall
  rcases hok.shape with ⟨hfreep, hnil, hlive, -, hbrk⟩ | hs
  · have hs := shape_init hfreep hnil hbrk
    obtain ⟨r, hr, -, hserved⟩ := hs.mallocLoop_served answer hok.base_pos hpos hbytes
    refine ⟨r, hr, ?_⟩
    rw [hlive]
    exact ⟨by simp, hserved⟩
  · have hne : x.heap.freep ≠ 0 := by
      have := hs.toArena.base_le (mem_union_left _ hs.freep_mem)
      have := hok.base_pos
      omega
    have hinit : x.heap.init base = x.heap := if_neg hne
    rw [malloc, hinit]
    exact hs.mallocLoop_served answer hok.base_pos hpos hbytes

lemma nunits_room (hsmall : Small n) : n + headerSize ≤ headerSize * nunits n := by
  rw [nunits_eq hsmall]
  simp only [headerSize]
  omega

lemma Ok.malloc_step (hok : Ok base x free) (hstep : (Event.malloc n).step base answer x = some x') :
    ∃ free', Ok base x' free' := by
  rw [Event.step] at hstep
  obtain ⟨hsmall, hstep⟩ := Option.ite_none_right_eq_some.mp hstep
  obtain ⟨⟨ap, h'⟩, hr, hkeep, hserved⟩ := hok.malloc_served answer hsmall
  rw [hr] at hstep
  dsimp only at hkeep hserved
  have hroom : ∀ hp ∈ x.live, x.want hp + headerSize ≤ headerSize * h'.size hp := by
    intro hp hlive
    rw [hkeep hp hlive]
    exact hok.room hp hlive
  rcases hserved with ⟨rfl, free', hshape⟩ | ⟨q, free', rfl, hq, hsize, hshape⟩
  · obtain rfl : { x with heap := h' } = x' := by simpa using hstep
    exact ⟨free', hok.base_pos, .inr hshape, hroom⟩
  · have hne : q + headerSize ≠ 0 := by simp [headerSize]
    have hnew : (if q + headerSize = 0 then some { x with heap := h' }
        else some { heap := h', live := insert (q + headerSize - headerSize) x.live,
                    want := update x.want (q + headerSize - headerSize) n }) = some x' := hstep
    rw [if_neg hne, Nat.add_sub_cancel] at hnew
    obtain rfl := Option.some.inj hnew
    refine ⟨free', hok.base_pos, .inr hshape, fun hp hlive => ?_⟩
    dsimp only at hlive ⊢
    rcases Finset.mem_insert.mp hlive with rfl | hlive
    · rw [update_self, hsize]
      exact nunits_room hsmall
    · rw [update_of_ne (fun heq : hp = q => hq (heq ▸ hlive))]
      exact hroom hp hlive

lemma Ok.shape_of_live (hok : Ok base x free) (hlive : hp ∈ x.live) : Shape base x.heap free x.live := by
  refine hok.shape.resolve_left ?_
  rintro ⟨-, -, hempty, -⟩
  simp [hempty] at hlive

lemma Ok.free_step (hok : Ok base x free) (hstep : (Event.free hp).step base answer x = some x') :
    ∃ free', Ok base x' free' := by
  rw [Event.step] at hstep
  obtain ⟨hlive, hstep⟩ := Option.ite_none_right_eq_some.mp hstep
  obtain ⟨h', free', hfree, hshape, -, -, hsize, -⟩ := (hok.shape_of_live hlive).free_spec hlive
  obtain rfl : { x with heap := h', live := x.live.erase hp } = x' := by
    simpa [hfree] using hstep
  refine ⟨free', hok.base_pos, .inr hshape, fun hp' hlive' => ?_⟩
  dsimp only at hlive' ⊢
  rw [hsize hp' hlive']
  exact hok.room hp' (mem_of_mem_erase hlive')

lemma Ok.write_step {a : ℕ} {v : Header} (hok : Ok base x free)
    (hstep : (Event.write hp a v).step base answer x = some x') : ∃ free', Ok base x' free' := by
  rw [Event.step] at hstep
  obtain ⟨⟨hlive, hlow, hhigh⟩, hstep⟩ := Option.ite_none_right_eq_some.mp hstep
  obtain rfl := Option.some.inj hstep
  have hs := hok.shape_of_live hlive
  have hheaders : ∀ b ∈ free ∪ x.live, b ≠ a := by
    rintro b hb rfl
    have hend := hs.toArena.end_le (mem_union_right _ hlive) hb
      (by simp only [headerSize] at hlow; omega)
    simp only [bytes, headerSize] at hend hhigh
    omega
  have hmem : ∀ b ∈ free ∪ x.live, update x.heap.mem a v b = x.heap.mem b := fun b hb =>
    update_of_ne (hheaders b hb) _ _
  have hptr : ∀ b ∈ free, (update x.heap.mem a v b).ptr = x.heap.ptr b := fun b hb => by
    rw [hmem b (mem_union_left _ hb), Heap.ptr]
  have hsize : ∀ b ∈ free ∪ x.live, (update x.heap.mem a v b).size = x.heap.size b :=
    fun b hb => by rw [hmem b hb, Heap.size]
  refine ⟨free, hok.base_pos, .inr ?_, fun hp' hlive' => ?_⟩
  · refine Shape.of_arena (hs.toArena.congr hptr hsize) ?_ rfl rfl hs.freep_mem hs.below hs.base_below
    intro b hb c hc hbc
    rw [bytes, hsize b (mem_union_left _ hb)]
    exact hs.apart hb hc hbc
  · have hroom := hok.room hp' hlive'
    rwa [← hsize hp' (mem_union_right _ hlive')] at hroom

lemma Ok.of_reachable (hx : Transition.Reachable (program base answer) x) : ∃ free, Ok base x free := by
  refine hx.invariant (fun x => ∃ free, Ok base x free) ?_ ?_
  · rintro x ⟨hfreep, hnil, hlive, hpos, hbrk⟩
    exact ⟨∅, hpos, .inl ⟨hfreep, hnil, hlive, rfl, hbrk⟩, by simp [hlive]⟩
  · rintro x e x' ⟨free, hok⟩ - hstep
    change e.step base answer x = some x' at hstep
    cases e with
    | malloc n => exact hok.malloc_step hstep
    | free hp => exact hok.free_step hstep
    | write hp a v => exact hok.write_step hstep

/-- What a program may rely on, with the blocks `free` of the free list: the list is circular in
address order, no blocks overlap and no free ones are adjacent, the free and the live blocks are the
memory that `sbrk` gave, and every live block has room for the bytes asked for. -/
structure Intact (x : Program) (free : Finset ℕ) : Prop where
  circular : IsCircle x.heap.ptr free
  entered : x.heap.freep ≠ 0 → x.heap.freep ∈ free
  disjoint : Disjoint free x.live
  no_overlap : ∀ a ∈ free ∪ x.live, ∀ b ∈ free ∪ x.live, a ≠ b →
    Disjoint (block (bytes x.heap.size) a) (block (bytes x.heap.size) b)
  not_adjacent : ∀ a ∈ free, ∀ b ∈ free, a ≠ b → a + bytes x.heap.size a ≠ b
  exact : ∀ y, y ∈ x.heap.region ↔ ∃ a ∈ free ∪ x.live, y ∈ block (bytes x.heap.size) a
  room : ∀ hp ∈ x.live, x.want hp + headerSize ≤ bytes x.heap.size hp

lemma block_base_eq_empty {live : Finset ℕ} (hs : Shape base h free live) :
    block (bytes h.size) base = ∅ := by
  simp [block, bytes, hs.base_size]

lemma Ok.intact (hok : Ok base x free) : Intact x free := by
  rcases hok.shape with ⟨hfreep, hnil, hlive, rfl, -⟩ | hs
  · have hregion := region_eq_empty _ hnil
    exact {
      circular := by simp [IsCircle]
      entered := fun hne => absurd hfreep hne
      disjoint := disjoint_empty_left _
      no_overlap := by simp [hlive]
      not_adjacent := by simp
      exact := by simp [hregion, hlive]
      room := hok.room }
  · have hbase := block_base_eq_empty hs
    exact {
      circular := hs.circle
      entered := fun _ => hs.freep_mem
      disjoint := hs.disjoint
      no_overlap := by
        intro a ha b hb hab
        by_cases hab' : a = base ∨ b = base
        · rcases hab' with rfl | rfl <;> simp [hbase]
        · push Not at hab'
          exact hs.tiles.disjoint (Arena.mem_blocks ha hab'.1) (Arena.mem_blocks hb hab'.2) hab
      not_adjacent := fun a ha b hb hab => hs.apart ha hb hab
      exact := by
        intro y
        rw [hs.tiles.cover]
        constructor
        · rintro ⟨a, ha, hy⟩
          exact ⟨a, union_subset_union_left (erase_subset _ _) ha, hy⟩
        · rintro ⟨a, ha, hy⟩
          have hne : a ≠ base := by
            rintro rfl
            simp [hbase] at hy
          exact ⟨a, Arena.mem_blocks ha hne, hy⟩
      room := hok.room }

/-- Whatever a program does with the allocator and whatever `sbrk` answers, the heap stays intact,
every call of `malloc` and `free` returns, and `malloc` hands out no block that the program holds. -/
theorem heap_stays_intact (hx : Transition.Reachable (program base answer) x) :
    (∃ free, Intact x free) ∧
      (∀ n, Small n → ∃ ap h, malloc base answer n x.heap = some (ap, h) ∧ (ap ≠ 0 → ap - headerSize ∉ x.live)) ∧
      ∀ hp ∈ x.live, ∃ h, x.heap.free (hp + headerSize) = some h := by
  obtain ⟨free, hok⟩ := Ok.of_reachable hx
  refine ⟨⟨free, hok.intact⟩, fun n hsmall => ?_, fun hp hlive => ?_⟩
  · obtain ⟨⟨ap, h⟩, hr, -, ⟨rfl, -⟩ | ⟨q, -, rfl, hq, -⟩⟩ := hok.malloc_served answer hsmall
    · exact ⟨0, h, hr, absurd rfl⟩
    · refine ⟨q + headerSize, h, hr, fun _ => ?_⟩
      rwa [Nat.add_sub_cancel]
  · obtain ⟨h, -, hfree, -⟩ := (hok.shape_of_live hlive).free_spec hlive
    exact ⟨h, hfree⟩

def freshProgram : Program where
  heap := { mem := fun _ => ⟨0, 0⟩, freep := 0, brk := 16, obtained := [], calls := 0 }
  live := ∅
  want := fun _ => 0

/-- Two requests, of which the first is given back while the second is held. -/
theorem heap_stays_intact_hole :
    ∃ x, Transition.run (program 8 fun _ => some 0)
      [.malloc 100, .malloc 20, .free 32672] freshProgram = some x ∧ x.live = {32640} ∧
      (∃ free, Intact x free) ∧
      (∀ n, Small n → ∃ ap h, malloc 8 (fun _ => some 0) n x.heap = some (ap, h) ∧
        (ap ≠ 0 → ap - headerSize ∉ x.live)) ∧
      ∀ hp ∈ x.live, ∃ h, x.heap.free (hp + headerSize) = some h := by
  have hrun : ∃ x ∈ Transition.run (program 8 fun _ => some 0)
      [.malloc 100, .malloc 20, .free 32672] freshProgram, x.live = {32640} := by
    decide +kernel
  obtain ⟨x, hx, hlive⟩ := hrun
  have hinit : (program 8 fun _ => some 0).init freshProgram :=
    ⟨rfl, rfl, rfl, by decide, by decide⟩
  exact ⟨x, hx, hlive, heap_stays_intact (Transition.Reachable.run (.init hinit) hx)⟩

end Program

/-! ### The arithmetic of a request -/

section Request

variable {base n p prevp ap : ℕ} {h h' : Heap} {answer : ℕ → Option ℕ}

lemma Heap.morecore_eq (answer : ℕ → Option ℕ) (h : Heap) (nu : ℕ) :
    h.morecore answer nu =
      match h.sbrk answer (coreBytes nu).toNat with
      | (none, h) => some (0, h)
      | (some hp, h) => do
        let h ← (h.setSize hp (coreUnits nu)).free (hp + headerSize)
        return (h.freep, h) := by
  rw [coreBytes, BitVec.toNat_ofNat]
  rfl

lemma Heap.size_carve (h : Heap) (n prevp p : ℕ) :
    (h.carve n prevp p).2.size ((h.carve n prevp p).1 - headerSize) = n := by
  rw [Heap.carve]
  split_ifs with heq
  · rw [Nat.add_sub_cancel]
    simpa using heq
  · rw [Nat.add_sub_cancel]
    simp

lemma size_mallocLoop {fuel : ℕ} (hr : mallocLoop answer n fuel prevp p h = some (ap, h')) :
    ap = 0 ∨ h'.size (ap - headerSize) = n := by
  induction fuel generalizing prevp p h with
  | zero => cases hr
  | succ fuel ih =>
    rw [mallocLoop] at hr
    split_ifs at hr with hfit hlast
    · have hcarve := h.size_carve n prevp p
      rw [Option.some.inj hr] at hcarve
      exact .inr hcarve
    · obtain ⟨⟨p', h₁⟩, -, hr⟩ := Option.bind_eq_some_iff.mp hr
      dsimp only at hr
      split_ifs at hr with hnone
      · obtain ⟨rfl, -⟩ := Prod.mk.inj (Option.some.inj hr)
        exact .inl rfl
      · exact ih hr
    · exact ih hr

lemma small_of_le (hn : n ≤ 2 ^ 31 - 16) : Small n := by
  simp only [Small, headerSize]
  omega

lemma coreBytes_eq (hn : n ≤ 2 ^ 31 - 16) :
    (coreBytes (nunits n)).toInt = headerSize * coreUnits (nunits n) := by
  have hunits : coreUnits (nunits n) * headerSize < 2 ^ 31 := by
    rw [coreUnits, nunits_eq (small_of_le hn)]
    split_ifs with hfew
    · decide
    · simp only [headerSize]
      omega
  have hnat : (coreBytes (nunits n)).toNat = coreUnits (nunits n) * headerSize := by
    rw [coreBytes, BitVec.toNat_ofNat, Nat.mod_eq_of_lt (by omega)]
  rw [BitVec.toInt_eq_toNat_of_lt (by omega), hnat, Nat.mul_comm]
  exact Int.natCast_mul _ _

lemma coreBytes_lt (hn : 2 ^ 31 - 16 < n) (hwrap : n + headerSize - 1 < 2 ^ 32) :
    (coreBytes (nunits n)).toInt < headerSize * coreUnits (nunits n) := by
  have hunits : nunits n = (n + 7) / 8 + 1 := by
    rw [nunits, Nat.mod_eq_of_lt hwrap]
    rfl
  have hcore : coreUnits (nunits n) = nunits n := by
    rw [coreUnits, if_neg]
    omega
  have hnat : (coreBytes (nunits n)).toNat = coreUnits (nunits n) * 8 % 2 ^ 32 := BitVec.toNat_ofNat _ _
  simp only [headerSize] at hwrap ⊢
  rw [BitVec.toInt_eq_toNat_cond]
  split_ifs with hsign
  · omega
  · omega

lemma malloc_refused (base n : ℕ) (hfreep : h.freep = 0) :
    ∃ h', malloc base (fun _ => none) n h = some (0, h') ∧ h'.calls = h.calls + 1 := by
  have hinit : h.init base = ((h.setPtr base base).setFreep base).setSize base 0 := if_pos hfreep
  have hfuel : (h.init base).fuel = 4 * h.brk + 7 + 1 := by
    rw [hinit]
    rfl
  have hsize : (h.init base).size base = 0 := by simp [hinit]
  have hptr : (h.init base).ptr base = base := by simp [hinit]
  have hentry : (h.init base).freep = base := by rw [hinit]; rfl
  have hnunits : ¬ 0 ≥ nunits n := Nat.not_succ_le_zero _
  rw [malloc, hfuel, hentry, hptr, mallocLoop, hsize, if_neg hnunits, if_pos hentry.symm, Heap.morecore_eq]
  exact ⟨_, rfl, by rw [hinit]; rfl⟩

lemma nunits_wrapped (hn : 2 ^ 32 ≤ n + headerSize - 1) (hword : n < 2 ^ 32) : nunits n = 1 := by
  simp only [nunits, headerSize] at hn ⊢
  omega

lemma malloc_wrapped (hn : 2 ^ 32 ≤ n + headerSize - 1) (hword : n < 2 ^ 32) :
    ∃ r, malloc 8 (fun _ => some 0) n freshProgram.heap = some r ∧ r.1 ≠ 0 := by
  rw [malloc, nunits_wrapped hn hword]
  decide +kernel

end Request

/-- A request of `n` bytes is served with a block that has room for them, and with memory for the whole block from `sbrk`,
in any heap, if and only if it is at least 16 bytes below 2 GiB. -/
theorem malloc_room_iff {n : ℕ} (hword : n < 2 ^ 32) :
    ((∀ base answer h ap h', malloc base answer n h = some (ap, h') →
        (ap = 0 ∨ n + headerSize ≤ headerSize * h'.size (ap - headerSize)) ∧
          (h'.calls ≠ h.calls → headerSize * coreUnits (nunits n) ≤ (coreBytes (nunits n)).toInt)) ∧
      ∀ base answer x, Transition.Reachable (program base answer) x → malloc base answer n x.heap ≠ none) ↔
      n ≤ 2 ^ 31 - 16 := by
  constructor
  · rintro ⟨h, -⟩
    by_contra hlarge
    by_cases hwrap : n + headerSize - 1 < 2 ^ 32
    · obtain ⟨h', hr, hcalls⟩ := malloc_refused (h := freshProgram.heap) 8 n rfl
      have hasked := (h _ _ _ _ _ hr).2 (by omega)
      exact absurd hasked (not_le.mpr (coreBytes_lt (by omega) hwrap))
    · -- the sum wraps, and the request is served as one of no bytes
      obtain ⟨r, hr, hne⟩ := malloc_wrapped (by omega) hword
      rcases (h _ _ _ _ _ hr).1 with hzero | hroom
      · exact hne hzero
      · rw [(size_mallocLoop hr).resolve_left hne, nunits_wrapped (by omega) hword] at hroom
        simp only [headerSize] at hwrap hroom
        omega
  · intro hn
    have hsmall := small_of_le hn
    constructor
    · intro base answer h ap h' hr
      refine ⟨(size_mallocLoop hr).imp id ?_, fun _ => (coreBytes_eq hn).ge⟩
      intro hsize
      rw [hsize]
      exact nunits_room hsmall
    · intro base answer x hx hnone
      obtain ⟨free, hok⟩ := Ok.of_reachable hx
      obtain ⟨r, hr, -⟩ := hok.malloc_served answer hsmall
      rw [hr] at hnone
      cases hnone

theorem malloc_room_hundred :
    (∀ base answer h ap h', malloc base answer 100 h = some (ap, h') →
        (ap = 0 ∨ 100 + headerSize ≤ headerSize * h'.size (ap - headerSize)) ∧
          (h'.calls ≠ h.calls → headerSize * coreUnits (nunits 100) ≤ (coreBytes (nunits 100)).toInt)) ∧
      ∀ base answer x, Transition.Reachable (program base answer) x → malloc base answer 100 x.heap ≠ none :=
  (malloc_room_iff (by decide)).mpr (by decide)

/-- `malloc(0xffffffff)` returns a block with room for no bytes, and for `malloc(0x80000000)` the size of the block that
`morecore` makes is negative as an `int`. -/
theorem malloc_no_room :
    (∃ r ∈ malloc 8 (fun _ => some 0) 0xFFFFFFFF freshProgram.heap, r.1 ≠ 0 ∧ r.2.size (r.1 - headerSize) = 1) ∧
      (coreBytes (nunits 0x80000000)).toInt < 0 := by
  decide +kernel

end Umalloc

end Xv6Bfs
