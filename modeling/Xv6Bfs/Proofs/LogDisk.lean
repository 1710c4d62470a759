import Xv6Bfs.Log
import Xv6Bfs.Proofs.Bio
import Xv6Bfs.Library.RedoLog

/-!
# The log on the disk

The blocks of the log are the slots of a redo log whose header is the first of them. Each
block write of `commit` and of `recover_from_log` is one of the writes of such a log.
-/

namespace Xv6Bfs

open Option RedoLog

variable {sb : Superblock} {io io' : Io} {b : Blockno} {lh : List Blockno} {i : ℕ}

/-! ### The header -/

lemma word_foldl_setWord (hb : Block) (lh : List Blockno) {n j : ℕ} (hn : n ≤ LOGSIZE)
    (hj : j ≤ LOGSIZE) :
    ((List.range n).foldl (fun hb i => hb.setWord (i + 1) (lh.getD i 0)) hb).word j =
      if 0 < j ∧ j ≤ n then lh.getD (j - 1) 0 else hb.word j := by
  induction n with
  | zero =>
    rw [if_neg (by omega)]
    rfl
  | succ n ih =>
    have hword : j < BSIZE / 4 := by
      have : LOGSIZE < BSIZE / 4 := by decide
      omega
    rw [List.range_succ, List.foldl_append, List.foldl_cons, List.foldl_nil,
      Block.word_setWord _ _ hword, ih (by omega)]
    by_cases hjn : j = n + 1
    · rw [if_pos hjn, if_pos (by omega), hjn, Nat.add_sub_cancel]
    · rw [if_neg hjn]
      by_cases hj0 : 0 < j ∧ j ≤ n
      · rw [if_pos hj0, if_pos (by omega)]
      · rw [if_neg hj0, if_neg (by omega)]

lemma toInt_ofNat_length {n : ℕ} (hn : n ≤ LOGSIZE) : (BitVec.ofNat 32 n).toInt = n := by
  have hn' : n ≤ 30 := hn
  rw [BitVec.toInt_eq_toNat_cond, BitVec.toNat_ofNat]
  omega

lemma word_fillHead_zero (hb : Block) (hlh : lh.length ≤ LOGSIZE) :
    ((fillHead hb lh).word 0).toInt = lh.length := by
  unfold fillHead
  rw [word_foldl_setWord _ _ hlh (Nat.zero_le _), if_neg (by omega),
    Block.word_setWord _ _ (by decide), if_pos rfl, toInt_ofNat_length hlh]

lemma headerBlocks_fillHead (hb : Block) (hlh : lh.length ≤ LOGSIZE) :
    headerBlocks (fillHead hb lh) = lh := by
  unfold headerBlocks
  rw [word_fillHead_zero hb hlh, Int.toNat_natCast]
  apply List.ext_getElem
  · simp
  · intro i hi hi'
    rw [List.getElem_map, List.getElem_range]
    unfold fillHead
    rw [word_foldl_setWord _ _ hlh (by omega), if_pos (by omega), Nat.add_sub_cancel,
      List.getD_eq_getElem?_getD, List.getElem?_eq_getElem hi', getD_some]

/-! ### The layout -/

lemma Superblock.slot_eq (sb : Superblock) (i : ℕ) : sb.slot i = sb.logstart + BitVec.ofNat 32 (i + 1) := by
  unfold slot
  rw [BitVec.ofNat_add, BitVec.add_assoc]
  rfl

lemma Superblock.logBlock_inj (sb : Superblock) {i j : ℕ} (hi : i < sb.nlog) (hj : j < sb.nlog)
    (h : sb.logstart + BitVec.ofNat 32 i = sb.logstart + BitVec.ofNat 32 j) : i = j := by
  have hfits := sb.log_fits
  have hnat := congrArg BitVec.toNat h
  rw [BitVec.toNat_add, BitVec.toNat_add, BitVec.toNat_ofNat, BitVec.toNat_ofNat] at hnat
  omega

def Superblock.layout (sb : Superblock) : Layout Blockno Block where
  head := sb.logstart
  slot := sb.slot
  capacity := sb.nlog - 1
  homes := headerBlocks
  slot_ne_head i hi h := by
    have h' : sb.logstart + BitVec.ofNat 32 (i + 1) = sb.logstart + BitVec.ofNat 32 0 := by
      rw [← sb.slot_eq, h, BitVec.add_zero]
    have := sb.logBlock_inj (by omega) sb.nlog_pos h'
    omega
  slot_inj i j hi hj h := by
    rw [sb.slot_eq, sb.slot_eq] at h
    have := sb.logBlock_inj (by omega) (by omega) h
    omega

lemma Superblock.home_iff : sb.layout.Home b ↔ sb.Home b := by
  constructor
  · rintro ⟨hhead, hslot⟩ i hi
    cases i with
    | zero =>
      rw [BitVec.add_zero]
      exact hhead
    | succ i =>
      rw [← sb.slot_eq]
      exact hslot i (show i < sb.nlog - 1 by omega)
  · intro h
    constructor
    · have := h 0 sb.nlog_pos
      rwa [BitVec.add_zero] at this
    · intro i hi
      have hi' : i < sb.nlog - 1 := hi
      have := h (i + 1) (by omega)
      rwa [← sb.slot_eq] at this

/-! ### The block writes -/

lemma exists_writeHead (sb : Superblock) (hio : io.Coherent) (lh : List Blockno) :
    ∃ io' hb, writeHead sb lh io = some io' ∧ io.Written sb.logstart (fillHead hb lh) io' := by
  obtain ⟨io₁, hread, h₁⟩ := Io.exists_bread hio sb.logstart
  obtain ⟨io₂, hwrite, h₂⟩ := Io.exists_bwrite h₁.coherent h₁.cached (fillHead (io.content sb.logstart) lh)
  refine ⟨io₂, io.content sb.logstart, ?_, h₁.toSame.written h₂⟩
  unfold writeHead
  rw [hread]
  exact hwrite

lemma exists_writeLogBlock (sb : Superblock) (hio : io.Coherent) (tail : ℕ) (b : Blockno) :
    ∃ io', writeLogBlock sb tail b io = some io' ∧ io.Written (sb.slot tail) (io.content b) io' := by
  obtain ⟨io₁, hread₁, h₁⟩ := Io.exists_bread hio (sb.slot tail)
  obtain ⟨io₂, hread₂, h₂⟩ := Io.exists_bread h₁.coherent b
  obtain ⟨io₃, hwrite, h₃⟩ := Io.exists_bwrite h₂.coherent (h₂.keeps _ h₁.cached) (io.content b)
  refine ⟨io₃, ?_, (h₁.toSame.trans h₂.toSame).written h₃⟩
  unfold writeLogBlock
  simp only [hread₁, bind_eq_bind, bind_some, hread₂, h₁.content]
  exact hwrite

lemma exists_installBlock (sb : Superblock) (hio : io.Coherent) (tail : ℕ) (b : Blockno) :
    ∃ io', installBlock sb tail b io = some io' ∧ io.Written b (io.content (sb.slot tail)) io' := by
  obtain ⟨io₁, hread₁, h₁⟩ := Io.exists_bread hio (sb.slot tail)
  obtain ⟨io₂, hread₂, h₂⟩ := Io.exists_bread h₁.coherent b
  obtain ⟨io₃, hwrite, h₃⟩ := Io.exists_bwrite h₂.coherent h₂.cached (io.content (sb.slot tail))
  refine ⟨io₃, ?_, (h₁.toSame.trans h₂.toSame).written h₃⟩
  unfold installBlock
  simp only [hread₁, bind_eq_bind, bind_some, hread₂]
  exact hwrite

lemma exists_readHead (hio : io.Coherent) (hfits : ((io.content sb.logstart).word 0).toInt ≤ LOGSIZE) :
    ∃ io', readHead sb io = some (headerBlocks (io.content sb.logstart), io') ∧ io.Same io' := by
  obtain ⟨io₁, hread, h₁⟩ := Io.exists_bread hio sb.logstart
  refine ⟨io₁, ?_, h₁.toSame⟩
  unfold readHead
  rw [hread, bind_eq_bind, bind_some]
  exact if_neg (by omega)

lemma readHead_same (hio : io.Coherent) (h : readHead sb io = some (lh, io')) : io.Same io' := by
  obtain ⟨io₁, hread, h₁⟩ := Io.exists_bread hio sb.logstart
  unfold readHead at h
  simp only [hread, bind_eq_bind, bind_some, ite_none_left_eq_some] at h
  cases h.2
  exact h₁.toSame

namespace LogStore

variable {st st' : LogStore} {tail : ℕ}

def stable (st : LogStore) : Blockno → Block :=
  replay st.base st.committed

/-- Recovery from this disk gives the committed content. -/
structure Durable (sb : Superblock) (st : LogStore) : Prop where
  coherent : st.io.Coherent
  recoverable : sb.layout.Recoverable st.io.disk st.stable
  head : ((st.io.disk sb.logstart).word 0).toInt ≤ LOGSIZE

/-- Operations may run: the log on disk is empty and only logged blocks are dirty. -/
structure Open (sb : Superblock) (st : LogStore) : Prop extends Durable sb st where
  clear : sb.layout.pending st.io.disk = []
  dirty : ∀ b, st.io.Dirty b → b ∈ st.lh
  home : ∀ b ∈ st.lh, sb.layout.Home b
  fits : st.lh.length ≤ sb.layout.capacity
  small : st.lh.length ≤ LOGSIZE
  content : ∀ b, sb.layout.Home b → st.io.content b = apply st.stable st.current b

/-- The first `tail` blocks are copied to the log. -/
structure Logged (sb : Superblock) (st : LogStore) (tail : ℕ) : Prop extends Open sb st where
  copied : ∀ i b, i < tail → st.lh[i]? = some b → st.io.disk (sb.slot i) = st.io.content b

/-- The header is on disk and the first `tail` blocks are in place. -/
structure Installing (sb : Superblock) (st : LogStore) (tail : ℕ) : Prop extends Durable sb st where
  pending : sb.layout.pending st.io.disk = st.lh
  installed : sb.layout.Installed st.io.disk st.stable tail
  dirty : ∀ b, st.io.Dirty b → b ∈ st.lh.drop tail
  current : st.current = []

structure Crashed (sb : Superblock) (st : LogStore) : Prop extends Durable sb st where
  dirty : ∀ b, ¬ st.io.Dirty b
  current : st.current = []

lemma Durable.same (h : st.Durable sb) (hio : st.io.Same io') : ({ st with io := io' } : LogStore).Durable sb where
  coherent := hio.coherent
  recoverable := by
    rw [hio.disk]
    exact h.recoverable
  head := by
    rw [hio.disk]
    exact h.head

lemma Open.same (h : st.Open sb) (hio : st.io.Same io') : ({ st with io := io' } : LogStore).Open sb where
  toDurable := h.toDurable.same hio
  clear := by
    rw [hio.disk]
    exact h.clear
  dirty b hb := h.dirty b ((hio.dirty b).mp hb)
  home := h.home
  fits := h.fits
  small := h.small
  content b hb := by
    rw [hio.content]
    exact h.content b hb

lemma Logged.same (h : st.Logged sb tail) (hio : st.io.Same io') :
    ({ st with io := io' } : LogStore).Logged sb tail where
  toOpen := h.toOpen.same hio
  copied i b hi hb := by
    rw [hio.disk, hio.content]
    exact h.copied i b hi hb

lemma Installing.same (h : st.Installing sb tail) (hio : st.io.Same io') :
    ({ st with io := io' } : LogStore).Installing sb tail where
  toDurable := h.toDurable.same hio
  pending := by
    rw [hio.disk]
    exact h.pending
  installed := by
    rw [hio.disk]
    exact h.installed
  dirty b hb := h.dirty b ((hio.dirty b).mp hb)
  current := h.current

lemma Crashed.same (h : st.Crashed sb) (hio : st.io.Same io') :
    ({ st with io := io' } : LogStore).Crashed sb where
  toDurable := h.toDurable.same hio
  dirty b hb := h.dirty b ((hio.dirty b).mp hb)
  current := h.current

lemma Durable.crash (h : st.Durable sb) : st.crash.Crashed sb where
  coherent := Io.coherent_crash
  recoverable := h.recoverable
  head := h.head
  dirty _ := Io.not_dirty_crash
  current := rfl

end LogStore

end Xv6Bfs
