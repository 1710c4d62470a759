import Xv6Bfs.Bitmap
import Xv6Bfs.Proofs.Mkfs

/-!
# `balloc` and `bfree` agree

As long as `sb.size` is at most `2 ^ 31` the `int` of `balloc` does not turn negative, and then it looks at the bits in order,
each where `bfree` and `mkfs` look for it.
-/

namespace Xv6Bfs

open List

namespace Bitmap

variable {sb : Super} {c c' : Content} {b k : Blockno}

lemma bpb_pos : 0 < BPB := by decide

lemma mod_bpb_lt (n : ℕ) : n % BPB < BPB :=
  Nat.mod_lt n bpb_pos

lemma toNat_ofNat_bpb : (BitVec.ofNat 32 BPB).toNat = BPB := by decide

lemma Super.bblock_eq (sb : Super) (b : BitVec 32) : sb.bblock b = BitVec.ofNat 32 (b.toNat / BPB) + sb.bmapstart := by
  rw [Super.bblock]
  congr 1
  apply BitVec.eq_of_toNat_eq
  rw [BitVec.toNat_udiv, toNat_ofNat_bpb, BitVec.toNat_ofNat, Nat.mod_eq_of_lt]
  exact (Nat.div_le_self ..).trans_lt b.isLt

lemma Super.bblock_eq_iff (sb : Super) : sb.bblock k = sb.bblock b ↔ k.toNat / BPB = b.toNat / BPB := by
  rw [sb.bblock_eq, sb.bblock_eq, BitVec.add_left_inj, ← BitVec.toNat_inj, BitVec.toNat_ofNat, BitVec.toNat_ofNat,
    Nat.mod_eq_of_lt ((Nat.div_le_self ..).trans_lt k.isLt), Nat.mod_eq_of_lt ((Nat.div_le_self ..).trans_lt b.isLt)]

lemma Super.bblockInt_eq (sb : Super) (hb : b.toNat < 2 ^ 31) : sb.bblockInt b = sb.bblock b := by
  have hmsb : b.msb = false := by
    rw [BitVec.msb_eq_false_iff_two_mul_lt]
    omega
  have hbpb : (BitVec.ofNat 32 BPB).msb = false := by decide
  rw [Super.bblockInt, Super.bblock, BitVec.sdiv_eq, hmsb, hbpb]
  rfl

/-! ### The two loops -/

lemma toNat_add_ofNat {bi : ℕ} (hb : b.toNat < 2 ^ 31) (hbi : bi ≤ BPB) : (b + BitVec.ofNat 32 bi).toNat = b.toNat + bi := by
  have hbpb : BPB = 4096 := rfl
  rw [BitVec.toNat_add, BitVec.toNat_ofNat]
  omega

lemma scan_some {data : Block} {left bi r : ℕ} (hleft : bi + left = BPB) (h : scan sb data b left bi = some r) :
    bi ≤ r ∧ r < BPB ∧ b + BitVec.ofNat 32 r < sb.size ∧ data.testBit r = false ∧
      ∀ i, bi ≤ i → i < r → data.testBit i = true := by
  induction left generalizing bi with
  | zero => cases h
  | succ left ih =>
    rw [scan] at h
    split_ifs at h with hlt hbit
    · obtain ⟨hle, hr, hsize, hclear, hset⟩ := ih (by omega) h
      refine ⟨by omega, hr, hsize, hclear, ?_⟩
      intro i hi hir
      by_cases heq : i = bi
      · rwa [heq]
      · exact hset i (by omega) hir
    · obtain rfl := Option.some.inj h
      refine ⟨le_rfl, by omega, hlt, by simpa using hbit, ?_⟩
      intro i hi hir
      omega

lemma scan_none {data : Block} {left bi : ℕ} (hb : b.toNat < 2 ^ 31) (hleft : bi + left = BPB)
    (h : scan sb data b left bi = none) :
    ∀ i, bi ≤ i → i < BPB → b.toNat + i < sb.size.toNat → data.testBit i = true := by
  induction left generalizing bi with
  | zero =>
    intro i hi hbpb
    omega
  | succ left ih =>
    intro i hi hbpb hsize
    have hround : b + BitVec.ofNat 32 bi < sb.size := by
      rw [BitVec.lt_def, toNat_add_ofNat hb (by omega)]
      omega
    rw [scan, if_pos hround] at h
    split_ifs at h with hbit
    by_cases heq : i = bi
    · rwa [heq]
    · exact ih (by omega) h i (by omega) hbpb hsize

def First (sb : Super) (c : Content) (b : Blockno) : Prop :=
  b < sb.size ∧ bit sb c b = false ∧ ∀ k < b, bit sb c k = true

def taken (sb : Super) (c : Content) (b : Blockno) : Content :=
  bzero b (c.logWrite (sb.bblock b) (·.setBit (b.toNat % BPB)))

lemma bit_round (sb : Super) {r : ℕ} (hb : b.toNat < 2 ^ 31) (hmul : b.toNat % BPB = 0) (hr : r < BPB) :
    sb.bblock (b + BitVec.ofNat 32 r) = sb.bblock b ∧ (b + BitVec.ofNat 32 r).toNat % BPB = r := by
  rw [sb.bblock_eq_iff, toNat_add_ofNat hb hr.le]
  unfold BPB BSIZE at *
  omega

lemma exists_round (hb : b.toNat < 2 ^ 31) (hle : b.toNat ≤ k.toNat) (hlt : k.toNat < b.toNat + BPB) :
    ∃ i < BPB, k = b + BitVec.ofNat 32 i ∧ k.toNat = b.toNat + i := by
  refine ⟨k.toNat - b.toNat, by omega, ?_, by omega⟩
  apply BitVec.eq_of_toNat_eq
  rw [toNat_add_ofNat hb (by omega)]
  omega

lemma ballocLoop_eq (hsize : sb.size.toNat ≤ 2 ^ 31) {fuel : ℕ} (hb : b.toNat ≤ 2 ^ 31) (hmul : b.toNat % BPB = 0)
    (hbefore : ∀ k < b, k < sb.size → bit sb c k = true) (hfuel : 2 ^ 31 < b.toNat + fuel * BPB) :
    (∃ r, First sb c r ∧ ballocLoop sb c fuel b = some (.ok (r, taken sb c r))) ∨
      (∀ k < sb.size, bit sb c k = true) ∧ ballocLoop sb c fuel b = some (.error .ballocOutOfBlocks) := by
  induction fuel generalizing b with
  | zero => omega
  | succ fuel ih =>
    rw [ballocLoop]
    by_cases hlt : b < sb.size
    · have hb' : b.toNat < 2 ^ 31 := lt_of_lt_of_le (BitVec.lt_def.mp hlt) hsize
      rw [if_pos hlt, sb.bblockInt_eq hb']
      dsimp only
      -- the bits of this round that the inner loop has passed
      have hbits : ∀ n ≤ BPB, (∀ i < n, b.toNat + i < sb.size.toNat → (c (sb.bblock b)).testBit i = true) →
          ∀ k : Blockno, k < sb.size → k.toNat < b.toNat + n → bit sb c k = true := by
        intro n hn hset k hsize' hk
        by_cases hkb : k < b
        · exact hbefore k hkb hsize'
        · obtain ⟨i, hi, rfl, hnat⟩ := exists_round hb' (BitVec.not_lt.mp hkb) (by omega)
          obtain ⟨hblock, hmod⟩ := bit_round sb hb' hmul hi
          rw [bit, hblock, hmod]
          exact hset i (by omega) (hnat ▸ BitVec.lt_def.mp hsize')
      cases hscan : scan sb (c (sb.bblock b)) b BPB 0 with
      | some r =>
        obtain ⟨-, hr, hless, hclear, hset⟩ := scan_some (Nat.zero_add _) hscan
        obtain ⟨hblock, hmod⟩ := bit_round sb hb' hmul hr
        refine .inl ⟨b + BitVec.ofNat 32 r, ⟨hless, ?_, ?_⟩, ?_⟩
        · rw [bit, hblock, hmod, hclear]
        · intro k hk
          apply hbits r hr.le (fun i hi _ => hset i (Nat.zero_le _) hi) k (BitVec.lt_trans hk hless)
          rw [← toNat_add_ofNat hb' hr.le]
          exact BitVec.lt_def.mp hk
        · rw [taken, hblock, hmod]
      | none =>
        have hset := scan_none hb' (Nat.zero_add _) hscan
        have hall := hbits BPB le_rfl (fun i hi => hset i (Nat.zero_le _) hi)
        have hnext := toNat_add_ofNat hb' (le_refl BPB)
        refine ih ?_ ?_ (fun k hk hksize => hall k hksize (hnext ▸ BitVec.lt_def.mp hk)) ?_
        · rw [hnext]
          unfold BPB BSIZE at *
          omega
        · rw [hnext, Nat.add_mod_right, hmul]
        · rw [hnext, Nat.add_assoc, Nat.add_comm BPB, ← Nat.succ_mul]
          exact hfuel
    · rw [if_neg hlt]
      refine .inr ⟨fun k hk => hbefore k ?_ hk, rfl⟩
      exact lt_of_lt_of_le (BitVec.lt_def.mp hk) (BitVec.not_lt.mp hlt)

lemma balloc_eq (hsize : sb.size.toNat ≤ 2 ^ 31) (c : Content) :
    (∃ r, First sb c r ∧ balloc sb c = some (.ok (r, taken sb c r))) ∨
      (∀ k < sb.size, bit sb c k = true) ∧ balloc sb c = some (.error .ballocOutOfBlocks) := by
  refine ballocLoop_eq hsize (by decide) (by decide) (fun k hk => ?_) (by decide)
  exact absurd hk (BitVec.not_lt_zero)

lemma First.unique (hb : First sb c b) (hk : First sb c k) : b = k := by
  have hbk : ∀ {b k}, First sb c b → First sb c k → ¬ b < k := by
    intro b k hb hk hlt
    have hset := hk.2.2 b hlt
    rw [hb.2.1] at hset
    cases hset
  exact BitVec.le_antisymm (BitVec.not_lt.mp (hbk hk hb)) (BitVec.not_lt.mp (hbk hb hk))

/-! ### One bit -/

lemma bit_logWrite (f : Block → Block) (v : Bool)
    (hf : ∀ d : Block, ∀ bj < BPB, (f d).testBit bj = if bj = b.toNat % BPB then v else d.testBit bj) (k : Blockno) :
    bit sb (c.logWrite (sb.bblock b) f) k = if k = b then v else bit sb c k := by
  rw [bit]
  by_cases hblock : sb.bblock k = sb.bblock b
  · rw [hblock, Content.logWrite_self, hf _ _ (mod_bpb_lt _), bit, hblock]
    have hiff : k.toNat % BPB = b.toNat % BPB ↔ k = b := by
      constructor
      · intro h
        apply BitVec.eq_of_toNat_eq
        rw [← Nat.div_add_mod k.toNat BPB, ← Nat.div_add_mod b.toNat BPB, sb.bblock_eq_iff.mp hblock, h]
      · rintro rfl
        rfl
    simp only [hiff]
  · have hne : k ≠ b := fun h => hblock (by rw [h])
    rw [Content.logWrite_of_ne f hblock, if_neg hne, bit]

lemma bit_setBit (k : Blockno) :
    bit sb (c.logWrite (sb.bblock b) (·.setBit (b.toNat % BPB))) k = (decide (k = b) || bit sb c k) := by
  rw [bit_logWrite _ true]
  · by_cases hk : k = b <;> simp [hk]
  · intro d bj hbj
    rw [Block.testBit_setBit d hbj]
    by_cases hbk : bj = b.toNat % BPB <;> simp [hbk]

lemma bit_clearBit (k : Blockno) :
    bit sb (c.logWrite (sb.bblock b) (·.clearBit (b.toNat % BPB))) k = (!decide (k = b) && bit sb c k) := by
  rw [bit_logWrite _ false]
  · by_cases hk : k = b <;> simp [hk]
  · intro d bj hbj
    rw [Block.testBit_clearBit d hbj]
    by_cases hbk : bj = b.toNat % BPB <;> simp [hbk]

lemma clearBit_setBit {d : Block} {bi : ℕ} (hbi : bi < BPB) (hclear : d.testBit bi = false) :
    (d.setBit bi).clearBit bi = d := by
  rw [Block.testBit, decide_eq_false_iff_not, not_not, Block.byte_eq d (Block.div_lt_bsize hbi)] at hclear
  funext i
  rw [Block.clearBit, Block.setBit]
  split_ifs with hi
  · rw [show (⟨bi / 8, Block.div_lt_bsize hbi⟩ : Fin BSIZE) = i from Fin.ext hi.symm] at hclear
    apply BitVec.eq_of_getLsbD_eq
    intro j hj
    have hj' := congrArg (fun x => x.getLsbD j) hclear
    simp only [BitVec.getLsbD_and, BitVec.getLsbD_or, BitVec.getLsbD_not, hj, decide_true, Bool.true_and] at hj' ⊢
    cases hmask : (1#8 <<< (bi % 8)).getLsbD j with
    | true =>
      rw [hmask, Bool.and_true] at hj'
      simp [hj']
    | false => simp
  · rfl

/-! ### The allocator -/

/-- The bitmap blocks are themselves marked as used. -/
def Reserved (sb : Super) (c : Content) : Prop :=
  ∀ k < sb.size, sb.bblock k < sb.size → bit sb c (sb.bblock k) = true

lemma First.ne_bblock (hb : First sb c b) (hres : Reserved sb c) (hk : k < sb.size) : sb.bblock k ≠ b := by
  intro heq
  have hset := hres k hk (heq ▸ hb.1)
  rw [heq, hb.2.1] at hset
  cases hset

lemma First.bit_taken (hb : First sb c b) (hres : Reserved sb c) (hk : k < sb.size) :
    bit sb (taken sb c b) k = (decide (k = b) || bit sb c k) := by
  rw [← bit_setBit, taken, bzero, bit, Content.logWrite_of_ne _ (hb.ne_bblock hres hk)]
  rfl

lemma bfree_eq (hb : bit sb c b = true) : bfree sb b c = .ok (c.logWrite (sb.bblock b) (·.clearBit (b.toNat % BPB))) :=
  if_pos hb

lemma First.restored (hb : First sb c b) (hres : Reserved sb c) :
    ∃ c', bfree sb b (taken sb c b) = .ok c' ∧ ∀ k < sb.size, c' (sb.bblock k) = c (sb.bblock k) := by
  have hset : bit sb (taken sb c b) b = true := by
    rw [hb.bit_taken hres hb.1, decide_eq_true rfl, Bool.true_or]
  refine ⟨_, bfree_eq hset, ?_⟩
  intro k hk
  by_cases hblock : sb.bblock k = sb.bblock b
  · rw [hblock, Content.logWrite_self, taken, bzero, Content.logWrite_of_ne _ (hb.ne_bblock hres hb.1),
      Content.logWrite_self]
    exact clearBit_setBit (mod_bpb_lt _) hb.2.1
  · rw [Content.logWrite_of_ne _ hblock, taken, bzero, Content.logWrite_of_ne _ (hb.ne_bblock hres hk),
      Content.logWrite_of_ne _ hblock]

/-- With at most `2 ^ 31` blocks and the bitmap blocks marked as used, `balloc` returns the first block whose bit is clear and
panics if there is none; it sets that bit and zeroes that block, and nothing else changes. `bfree` clears the bit of a block
whose bit is set, and after `balloc` it restores the bitmap. The bitmap of `mkfs` has the same bits. -/
theorem balloc_bfree_exact (hsize : sb.size.toNat ≤ 2 ^ 31)
    (hres : ∀ k < sb.size, sb.bblock k < sb.size → bit sb c (sb.bblock k) = true) :
    (balloc sb c = some (.error .ballocOutOfBlocks) ↔ ∀ k < sb.size, bit sb c k = true) ∧
    (∀ b, (∃ c', balloc sb c = some (.ok (b, c'))) ↔
      b < sb.size ∧ bit sb c b = false ∧ ∀ k < b, bit sb c k = true) ∧
    (∀ b c', balloc sb c = some (.ok (b, c')) →
      c' b = (fun _ => 0) ∧ c' (sb.bblock b) = (c (sb.bblock b)).setBit (b.toNat % BPB) ∧
        (∀ k, k ≠ b → k ≠ sb.bblock b → c' k = c k) ∧
        (∀ k < sb.size, bit sb c' k = (decide (k = b) || bit sb c k)) ∧
        ∃ c'', bfree sb b c' = .ok c'' ∧ ∀ k < sb.size, c'' (sb.bblock k) = c (sb.bblock k)) ∧
    (∀ b, bit sb c b = true → ∃ c', bfree sb b c = .ok c' ∧
      c' (sb.bblock b) = (c (sb.bblock b)).clearBit (b.toNat % BPB) ∧ (∀ k, k ≠ sb.bblock b → c' k = c k) ∧
        ∀ k, bit sb c' k = (!decide (k = b) && bit sb c k)) ∧
    (∀ used, c sb.bmapstart = Mkfs.bits used → ∀ b : Blockno, b.toNat < BPB → bit sb c b = decide (b.toNat < used)) := by
  refine ⟨?_, ?_, ?_, ?_, ?_⟩
  · rcases balloc_eq hsize c with ⟨r, hr, heq⟩ | ⟨hall, heq⟩
    · refine iff_of_false (by rw [heq]; nofun) ?_
      intro hall
      have hset := hall r hr.1
      rw [hr.2.1] at hset
      cases hset
    · exact iff_of_true heq hall
  · intro b
    rcases balloc_eq hsize c with ⟨r, hr, heq⟩ | ⟨hall, heq⟩
    · constructor
      · rintro ⟨c', hc'⟩
        rw [heq] at hc'
        cases hc'
        exact hr
      · intro hb
        obtain rfl := First.unique hb hr
        exact ⟨_, heq⟩
    · refine iff_of_false ?_ ?_
      · rintro ⟨c', hc'⟩
        rw [heq] at hc'
        cases hc'
      · rintro ⟨hlt, hclear, -⟩
        rw [hall b hlt] at hclear
        cases hclear
  · intro b c' hc'
    rcases balloc_eq hsize c with ⟨r, hr, heq⟩ | ⟨-, heq⟩
    · rw [heq] at hc'
      cases hc'
      refine ⟨?_, ?_, ?_, fun k hk => hr.bit_taken hres hk, hr.restored hres⟩
      · rw [taken, bzero, Content.logWrite_self]
      · rw [taken, bzero, Content.logWrite_of_ne _ (hr.ne_bblock hres hr.1), Content.logWrite_self]
      · intro k hk hblock
        rw [taken, bzero, Content.logWrite_of_ne _ hk, Content.logWrite_of_ne _ hblock]
    · rw [heq] at hc'
      cases hc'
  · intro b hb
    refine ⟨_, bfree_eq hb, Content.logWrite_self _, fun k hk => Content.logWrite_of_ne _ hk, bit_clearBit⟩
  · intro used hused b hb
    have hblock : sb.bblock b = sb.bmapstart := by
      rw [sb.bblock_eq, Nat.div_eq_of_lt hb]
      exact BitVec.zero_add _
    rw [bit, hblock, hused, Nat.mod_eq_of_lt hb, Mkfs.testBit_bits hb]

def tenBlocks (n : BitVec 8) : Super × Content :=
  (⟨10, 3⟩, fun _ i => if i.val = 0 then n else 0)

lemma bblock_tenBlocks (n : BitVec 8) (hk : k < (tenBlocks n).1.size) : (tenBlocks n).1.bblock k = 3 := by
  have hlt : k.toNat < 10 := BitVec.lt_def.mp hk
  rw [Super.bblock_eq, Nat.div_eq_of_lt (hlt.trans (by decide))]
  rfl

theorem balloc_bfree_exact_ten :
    (∃ c', balloc (tenBlocks 15).1 (tenBlocks 15).2 = some (.ok (4, c'))) ∧
      ∀ c', balloc (tenBlocks 15).1 (tenBlocks 15).2 = some (.ok (4, c')) →
        ∃ c'', bfree (tenBlocks 15).1 4 c' = .ok c'' ∧
          ∀ k < (10 : Blockno), c'' ((tenBlocks 15).1.bblock k) = (tenBlocks 15).2 ((tenBlocks 15).1.bblock k) := by
  have hsize : (tenBlocks 15).1.size.toNat ≤ 2 ^ 31 := by decide
  have h := balloc_bfree_exact (c := (tenBlocks 15).2) hsize (fun k hk _ => by
    rw [bblock_tenBlocks 15 hk]
    decide)
  refine ⟨⟨_, rfl⟩, ?_⟩
  intro c' hc'
  exact (h.2.2.1 4 c' hc').2.2.2.2

lemma scan_full {data : Block} {left bi : ℕ} (hleft : bi + left = BPB) (hfull : ∀ i < BPB, data.testBit i = true) :
    scan sb data b left bi = none := by
  induction left generalizing bi with
  | zero => rfl
  | succ left ih =>
    rw [scan, if_pos (hfull bi (by omega)), ih (by omega), ite_self]

lemma ballocLoop_full (hsize : sb.size.toNat + BPB ≤ 2 ^ 32)
    (hfull : ∀ b < sb.size, ∀ i < BPB, (c (sb.bblockInt b)).testBit i = true) {fuel : ℕ}
    (hb : b.toNat < sb.size.toNat + BPB) (hfuel : sb.size.toNat + BPB ≤ b.toNat + fuel * BPB) :
    ballocLoop sb c fuel b = some (.error .ballocOutOfBlocks) := by
  induction fuel generalizing b with
  | zero => omega
  | succ fuel ih =>
    rw [ballocLoop]
    by_cases hlt : b < sb.size
    · rw [if_pos hlt]
      dsimp only
      rw [scan_full (Nat.zero_add _) (hfull b hlt)]
      dsimp only
      rw [BitVec.lt_def] at hlt
      have hnext : (b + BitVec.ofNat 32 BPB).toNat = b.toNat + BPB := by
        rw [BitVec.toNat_add, toNat_ofNat_bpb, Nat.mod_eq_of_lt (by omega)]
      rw [Nat.succ_mul] at hfuel
      exact ih (by omega) (by omega)
    · rw [if_neg hlt]

/-- The bitmap starts in block `2 ^ 20`, and only the bit of block `2 ^ 31` is clear. -/
def large : Super × Content :=
  (⟨0x80000001, 0x100000⟩, fun b _ => if b = 0x180000 then 0 else BitVec.allOnes 8)

lemma bblockInt_large (hb : b < large.1.size) : large.1.bblockInt b ≠ 0x180000 := by
  by_cases hlt : b.toNat < 2 ^ 31
  · rw [Super.bblockInt_eq _ hlt]
    intro heq
    have hclear : large.1.bblock b = large.1.bblock 0x80000000 := heq.trans (by decide)
    rw [Super.bblock_eq_iff, show (0x80000000 : BitVec 32).toNat = 2 ^ 31 by decide] at hclear
    unfold BPB BSIZE at hclear
    omega
  · have hsize : large.1.size.toNat = 2 ^ 31 + 1 := by decide
    have htop : b = 0x80000000 := by
      apply BitVec.eq_of_toNat_eq
      rw [show (0x80000000 : BitVec 32).toNat = 2 ^ 31 by decide]
      have := BitVec.lt_def.mp hb
      omega
    rw [htop]
    decide

lemma large_full (hb : b < large.1.size) {i : ℕ} (hi : i < BPB) : (large.2 (large.1.bblockInt b)).testBit i = true := by
  rw [Block.testBit_eq _ (Block.div_lt_bsize hi)]
  have hbyte : ∀ k j, k ≠ 0x180000 → large.2 k j = BitVec.allOnes 8 := fun k j hk => if_neg hk
  rw [hbyte _ _ (bblockInt_large hb), BitVec.getLsbD_allOnes]
  exact decide_eq_true (Nat.mod_lt _ (by decide))

/-- If the bit of the bitmap block itself is clear, `balloc` takes that block, and zeroing it clears the bit again. And with
more than `2 ^ 31` blocks `balloc` panics although a bit is clear: it looks for the bit of block `2 ^ 31` in another block than
`bfree`. -/
theorem balloc_takes_bitmap_block :
    (∃ c', balloc (tenBlocks 7).1 (tenBlocks 7).2 = some (.ok (3, c')) ∧ bit (tenBlocks 7).1 c' 3 = false) ∧
      balloc large.1 large.2 = some (.error .ballocOutOfBlocks) ∧
      bit large.1 large.2 0x80000000 = false ∧ (0x80000000 : Blockno) < large.1.size := by
  refine ⟨⟨_, rfl, by decide⟩, ?_, by decide, by decide⟩
  exact ballocLoop_full (by decide) (fun b hb i hi => large_full hb hi) (by decide) (by decide)

/-! ### Under a superblock in order -/

section Fs

variable {fs : FsSuperblock}

/-- The fields of a superblock whose regions are in order. -/
def ofFs (fs : FsSuperblock) : Super :=
  ⟨BitVec.ofNat 32 fs.size, BitVec.ofNat 32 fs.bmapstart⟩

lemma bblock_ofFs (b : Blockno) : (ofFs fs).bblock b = fs.bblock b.toNat := by
  rw [Super.bblock_eq, ofFs, FsSuperblock.bblock, BitVec.ofNat_add]

lemma bit_ofFs (c : Content) (b : Blockno) : bit (ofFs fs) c b = c.bit fs b := by
  rw [bit, bblock_ofFs, Content.bit]

lemma toNat_size_ofFs : (ofFs fs).size.toNat = fs.size :=
  Nat.mod_eq_of_lt (fs.size_fits.trans (by decide))

lemma findFree_first {k : ℕ} (h : findFree fs c = some k) (hb : b.toNat < k) : c.bit fs b = true := by
  have hlt : b.toNat < fs.size := hb.trans (findFree_eq_some h).1
  have hsplit : b.toNat / BPB * BPB + b.toNat % BPB = b.toNat := Nat.div_add_mod' ..
  have hbit := bit_ofNat (c := c) (mod_bpb_lt b.toNat) (by rw [hsplit]; exact hlt)
  rw [hsplit, BitVec.ofNat_toNat, BitVec.setWidth_eq] at hbit
  rw [hbit]
  obtain ⟨pre, j, post, hrange, hj, hpre⟩ := findSome?_eq_some_iff.mp h
  obtain ⟨bi, hbi, rfl⟩ := Option.map_eq_some_iff.mp hj
  obtain ⟨-, hmem, hset⟩ := find?_range_eq_some.mp hbi
  rw [mem_range] at hmem
  rcases lt_or_ge (b.toNat / BPB) j with hq | hq
  · -- a round before the last one
    have hmem' : b.toNat / BPB ∈ pre := by
      have hsorted := pairwise_lt_range (n := (fs.size + BPB - 1) / BPB)
      have hin : b.toNat / BPB ∈ List.range ((fs.size + BPB - 1) / BPB) := by
        have hj' : j ∈ List.range ((fs.size + BPB - 1) / BPB) := by simp [hrange]
        rw [mem_range] at hj' ⊢
        omega
      rw [hrange] at hsorted hin
      rcases mem_append.mp hin with hin | hin
      · exact hin
      · rcases mem_cons.mp hin with heq | hin
        · omega
        · have := (pairwise_cons.mp (pairwise_append.mp hsorted).2.1).1 _ hin
          omega
    have hnone := hpre _ hmem'
    rw [Option.map_eq_none_iff, find?_eq_none] at hnone
    simpa [hsplit, hlt] using hnone _ (mem_range.mpr (mod_bpb_lt b.toNat))
  · have hround : b.toNat / BPB = j ∧ b.toNat % BPB < bi := by
      unfold BPB BSIZE at *
      omega
    have hpassed := hset _ hround.2
    rw [← hround.1] at hpassed
    simpa [hsplit, hlt] using hpassed

/-- There `balloc` and `bfree` are those of the file system. -/
theorem balloc_ofFs (c : Content) : balloc (ofFs fs) c = some (Xv6Bfs.balloc fs c) := by
  have hsize : (ofFs fs).size.toNat ≤ 2 ^ 31 := by
    rw [toNat_size_ofFs]
    exact fs.size_fits.le
  rw [Xv6Bfs.balloc]
  rcases balloc_eq hsize c with ⟨r, hr, heq⟩ | ⟨hall, heq⟩
  · have hlt : r.toNat < fs.size := by
      rw [← toNat_size_ofFs]
      exact BitVec.lt_def.mp hr.1
    have hclear := hr.2.1
    rw [bit_ofFs] at hclear
    cases hfind : findFree fs c with
    | none =>
      rw [findFree_eq_none hfind hlt] at hclear
      cases hclear
    | some k =>
      obtain ⟨hk, hfree⟩ := findFree_eq_some hfind
      have hnat := FsSuperblock.toNat_ofNat_of_lt_size hk
      have hkr : k = r.toNat := by
        apply le_antisymm
        · by_contra hgt
          rw [findFree_first hfind (by omega)] at hclear
          cases hclear
        · by_contra hgt
          have hset := hr.2.2 (BitVec.ofNat 32 k) (by rw [BitVec.lt_def, hnat]; omega)
          rw [bit_ofFs, hfree] at hset
          cases hset
      rw [heq, taken, bblock_ofFs, hkr]
      dsimp only
      rw [BitVec.ofNat_toNat, BitVec.setWidth_eq]
  · cases hfind : findFree fs c with
    | none => rw [heq]
    | some k =>
      obtain ⟨hk, hfree⟩ := findFree_eq_some hfind
      have hset := hall (BitVec.ofNat 32 k) (by
        rw [BitVec.lt_def, FsSuperblock.toNat_ofNat_of_lt_size hk, toNat_size_ofFs]
        exact hk)
      rw [bit_ofFs, hfree] at hset
      cases hset

theorem bfree_ofFs (b : Blockno) (c : Content) : bfree (ofFs fs) b c = Xv6Bfs.bfree fs b c := by
  rw [bfree, bblock_ofFs, Xv6Bfs.bfree]

end Fs

end Bitmap

end Xv6Bfs
