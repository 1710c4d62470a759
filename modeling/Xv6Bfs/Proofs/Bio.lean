import Xv6Bfs.Bio

/-!
# What the buffer cache shows

A read of a block gives its contents: the bytes of its buffer when it is cached, those of the disk otherwise.
-/

namespace Xv6Bfs

open Function

namespace Block

lemma byte_eq (d : Block) {k : ℕ} (hk : k < BSIZE) : d.byte k = d ⟨k, hk⟩ := by
  unfold byte
  congr 1
  exact Fin.ext (Nat.mod_eq_of_lt hk)

lemma byte_setWord (d : Block) (v : BitVec 32) {i j r : ℕ} (hj : j < BSIZE / 4) (hr : r < 4) :
    (d.setWord i v).byte (4 * j + r) =
      if j = i then BitVec.ofNat 8 (v.toNat / 256 ^ r) else d.byte (4 * j + r) := by
  have hk : 4 * j + r < BSIZE := by
    unfold BSIZE at hj ⊢
    omega
  rw [byte_eq _ hk, byte_eq _ hk, setWord]
  have hdiv : (4 * j + r) / 4 = j := by omega
  have hmod : (4 * j + r) % 4 = r := by omega
  simp only [hdiv, hmod]

lemma word_setWord (d : Block) (v : BitVec 32) {i j : ℕ} (hj : j < BSIZE / 4) :
    (d.setWord i v).word j = if j = i then v else d.word j := by
  unfold word
  have h0 := byte_setWord d v (i := i) hj (r := 0) (by decide)
  rw [Nat.add_zero] at h0
  rw [h0, byte_setWord d v hj (by decide), byte_setWord d v hj (by decide),
    byte_setWord d v hj (by decide)]
  by_cases hji : j = i
  · rw [if_pos hji, if_pos hji, if_pos hji, if_pos hji, if_pos hji]
    apply BitVec.eq_of_toNat_eq
    have hv := v.isLt
    simp only [BitVec.toNat_ofNat]
    omega
  · rw [if_neg hji, if_neg hji, if_neg hji, if_neg hji, if_neg hji]

end Block

namespace Io

variable {io : Io} {b c : Blockno} {data : Block}

def content (io : Io) (b : Blockno) : Block :=
  match io.cache b with
  | some buf => if buf.valid then buf.data else io.disk b
  | none => io.disk b

def Dirty (io : Io) (b : Blockno) : Prop :=
  ∃ buf ∈ io.cache b, buf.dirty

/-- A dirty buffer is valid, and a valid one that is not dirty agrees with the disk. -/
def Coherent (io : Io) : Prop :=
  ∀ b, ∀ buf ∈ io.cache b, (buf.dirty → buf.valid) ∧ (buf.valid → ¬ buf.dirty → buf.data = io.disk b)

def Cached (io : Io) (b : Blockno) : Prop :=
  ∃ buf ∈ io.cache b, buf.valid

structure Same (io io' : Io) : Prop where
  disk : io'.disk = io.disk
  content : io'.content = io.content
  dirty : ∀ b, io'.Dirty b ↔ io.Dirty b
  coherent : io'.Coherent

lemma Same.refl (hio : io.Coherent) : Same io io :=
  ⟨rfl, rfl, fun _ => Iff.rfl, hio⟩

lemma Same.trans {io₁ io₂ : Io} (h : Same io io₁) (h' : Same io₁ io₂) : Same io io₂ :=
  ⟨h'.disk.trans h.disk, h'.content.trans h.content, fun b => (h'.dirty b).trans (h.dirty b), h'.coherent⟩

lemma content_eq_disk (hio : io.Coherent) (hb : ¬ io.Dirty b) : io.content b = io.disk b := by
  unfold content
  split
  · rename_i buf hbuf
    split
    · rename_i hvalid
      exact (hio b buf hbuf).2 hvalid (fun hd => hb ⟨buf, hbuf, hd⟩)
    · rfl
  · rfl

structure Read (io : Io) (b : Blockno) (io' : Io) : Prop extends Same io io' where
  cached : io'.Cached b
  keeps : ∀ c, io.Cached c → io'.Cached c

/-! ### Changes of one buffer -/

lemma content_update (buf : Buf) (hvalid : buf.valid) (disk : Blockno → Block)
    (hdisk : ∀ c, c ≠ b → disk c = io.disk c) :
    content ⟨disk, update io.cache b (some buf)⟩ = update io.content b buf.data := by
  funext c
  by_cases hc : c = b
  · subst hc
    simp [content, hvalid]
  · simp [content, update_of_ne hc, hdisk c hc]

lemma dirty_update (buf : Buf) (disk : Blockno → Block) :
    Dirty ⟨disk, update io.cache b (some buf)⟩ c ↔ if c = b then buf.dirty = true else io.Dirty c := by
  by_cases hc : c = b
  · subst hc
    simp [Dirty]
  · simp [Dirty, hc]

lemma coherent_update (hio : io.Coherent) (buf : Buf) (hdirty : buf.dirty → buf.valid)
    (disk : Blockno → Block) (hbuf : buf.valid → ¬ buf.dirty → buf.data = disk b)
    (hdisk : ∀ c, c ≠ b → disk c = io.disk c) :
    Coherent ⟨disk, update io.cache b (some buf)⟩ := by
  intro c buf' hbuf'
  by_cases hc : c = b
  · subst hc
    obtain rfl : buf = buf' := by simpa using hbuf'
    exact ⟨hdirty, hbuf⟩
  · simp only [update_of_ne hc] at hbuf'
    simp only [hdisk c hc]
    exact hio c buf' hbuf'

lemma Cached.update (hc : io.Cached c) {buf : Buf} (hvalid : buf.valid) (disk : Blockno → Block) :
    Cached ⟨disk, update io.cache b (some buf)⟩ c := by
  by_cases hcb : c = b
  · subst hcb
    exact ⟨buf, by simp, hvalid⟩
  · obtain ⟨buf', hbuf', hvalid'⟩ := hc
    exact ⟨buf', by simpa [update_of_ne hcb] using hbuf', hvalid'⟩

lemma same_update (hio : io.Coherent) (buf : Buf) (hdata : buf.valid → buf.data = io.content b)
    (hinvalid : buf.valid = false → io.content b = io.disk b)
    (hdirty : buf.dirty = true ↔ io.Dirty b) (hvalid : buf.dirty → buf.valid) :
    Same io ⟨io.disk, update io.cache b (some buf)⟩ := by
  refine ⟨rfl, ?_, ?_, ?_⟩
  · funext c
    by_cases hc : c = b
    · subst hc
      by_cases hv : buf.valid
      · simp [content, hv, hdata hv]
      · have hv' : buf.valid = false := by simpa using hv
        rw [hinvalid hv']
        simp [content, hv']
    · simp [content, update_of_ne hc]
  · intro c
    rw [dirty_update]
    split
    · rename_i hc
      rw [hc, hdirty]
    · rfl
  · refine coherent_update hio buf hvalid _ ?_ (fun _ _ => rfl)
    intro hv hd
    rw [hdata hv]
    exact content_eq_disk hio (fun h => hd (hdirty.mpr h))

/-! ### Operations -/

lemma bget_of_some {buf : Buf} (hbuf : io.cache b = some buf) : io.bget b = io := by
  unfold bget
  rw [hbuf]

lemma bget_of_none (hb : io.cache b = none) :
    io.bget b = ⟨io.disk, update io.cache b (some ⟨false, false, fun _ => 0⟩)⟩ := by
  unfold bget
  rw [hb]

lemma bread_of_invalid {buf : Buf} (hio : io.Coherent) (hbuf : (io.bget b).cache b = some buf)
    (hvalid : buf.valid = false) (hdirty : buf.dirty = false) (hsame : Same io (io.bget b))
    (hkeeps : ∀ c, io.Cached c → (io.bget b).Cached c) :
    ∃ io', io.bread b = some (io.content b, io') ∧ io.Read b io' := by
  have hclean : ¬ io.Dirty b := by
    rw [← hsame.dirty]
    rintro ⟨buf', hbuf', hd⟩
    obtain rfl : buf = buf' := Option.some.inj (hbuf.symm.trans hbuf')
    simp [hdirty] at hd
  have hcontent : io.content b = io.disk b := content_eq_disk hio hclean
  refine ⟨⟨io.disk, update (io.bget b).cache b (some ⟨true, false, io.disk b⟩)⟩, ?_, ?_, ?_, ?_⟩
  · unfold bread iderw
    simp [hbuf, hvalid, hdirty, hcontent, hsame.disk]
  · apply hsame.trans
    rw [← hsame.disk]
    apply same_update hsame.coherent
    · intro _
      rw [hsame.content, hcontent, hsame.disk]
    · simp
    · rw [hsame.dirty]
      simpa using hclean
    · simp
  · exact ⟨⟨true, false, io.disk b⟩, by simp, rfl⟩
  · intro c hc
    exact (hkeeps c hc).update rfl _

lemma exists_bread (hio : io.Coherent) (b : Blockno) :
    ∃ io', io.bread b = some (io.content b, io') ∧ io.Read b io' := by
  cases hcache : io.cache b with
  | none =>
    have hclean : ¬ io.Dirty b := by simp [Dirty, hcache]
    have hbuf : (io.bget b).cache b = some ⟨false, false, fun _ => 0⟩ := by
      simp [bget_of_none hcache]
    apply bread_of_invalid hio hbuf rfl rfl
    · rw [bget_of_none hcache]
      apply same_update hio
      · simp
      · intro _
        exact content_eq_disk hio hclean
      · simpa using hclean
      · simp
    · rintro c ⟨buf, hcached, hvalid⟩
      have hc : c ≠ b := by
        rintro rfl
        simp [hcache] at hcached
      refine ⟨buf, ?_, hvalid⟩
      rw [bget_of_none hcache]
      simpa [update_of_ne hc] using hcached
  | some buf =>
    have hget : io.bget b = io := bget_of_some hcache
    cases hvalid : buf.valid with
    | true =>
      refine ⟨io, ?_, Same.refl hio, ⟨buf, hcache, hvalid⟩, fun _ hc => hc⟩
      unfold bread content
      simp [hget, hcache, hvalid]
    | false =>
      have hdirty : buf.dirty = false := by
        have := (hio b buf hcache).1
        simpa [hvalid] using this
      apply bread_of_invalid hio (by rw [hget, hcache]) hvalid hdirty
      · rw [hget]
        exact Same.refl hio
      · rw [hget]
        exact fun _ hc => hc

structure Written (io : Io) (b : Blockno) (data : Block) (io' : Io) : Prop where
  disk : io'.disk = update io.disk b data
  content : io'.content = update io.content b data
  dirty : ∀ c, io'.Dirty c ↔ c ≠ b ∧ io.Dirty c
  coherent : io'.Coherent

lemma Same.written {io₁ io' : Io} (h : Same io io₁) (hw : io₁.Written b data io') : io.Written b data io' :=
  ⟨h.disk ▸ hw.disk, h.content ▸ hw.content, fun c => (hw.dirty c).trans (and_congr_right fun _ => h.dirty c),
    hw.coherent⟩

lemma written_update (hio : io.Coherent) (b : Blockno) (data : Block) :
    io.Written b data ⟨update io.disk b data, update io.cache b (some ⟨true, false, data⟩)⟩ := by
  refine ⟨rfl, ?_, ?_, ?_⟩
  · exact content_update _ rfl _ (fun c hc => update_of_ne hc _ _)
  · intro c
    rw [dirty_update]
    by_cases hc : c = b <;> simp [hc]
  · apply coherent_update hio
    · simp
    · simp
    · intro c hc
      exact update_of_ne hc _ _

lemma exists_bwrite (hio : io.Coherent) (hb : io.Cached b) (data : Block) :
    ∃ io', (do let io ← io.store b data; io.bwrite b) = some io' ∧ io.Written b data io' := by
  obtain ⟨buf, hbuf, -⟩ := hb
  rw [Option.mem_def] at hbuf
  refine ⟨_, ?_, written_update hio b data⟩
  simp [store, bwrite, setDirty, iderw, hbuf]

structure Modified (io : Io) (b : Blockno) (data : Block) (io' : Io) : Prop where
  disk : io'.disk = io.disk
  content : io'.content = update io.content b data
  dirty : ∀ c, io'.Dirty c ↔ c = b ∨ io.Dirty c
  coherent : io'.Coherent

lemma Same.modified {io₁ io' : Io} (h : Same io io₁) (hm : io₁.Modified b data io') :
    io.Modified b data io' :=
  ⟨hm.disk.trans h.disk, h.content ▸ hm.content, fun c => (hm.dirty c).trans (or_congr_right (h.dirty c)),
    hm.coherent⟩

lemma modified_update (hio : io.Coherent) (b : Blockno) (data : Block) :
    io.Modified b data ⟨io.disk, update io.cache b (some ⟨true, true, data⟩)⟩ := by
  refine ⟨rfl, ?_, ?_, ?_⟩
  · exact content_update _ rfl _ (fun _ _ => rfl)
  · intro c
    rw [dirty_update]
    by_cases hc : c = b <;> simp [hc]
  · apply coherent_update hio
    · simp
    · simp
    · intro _ _
      rfl

lemma exists_setDirty (hio : io.Coherent) (hb : io.Cached b) (data : Block) :
    ∃ io', (do let io ← io.store b data; io.setDirty b) = some io' ∧ io.Modified b data io' := by
  obtain ⟨buf, hbuf, hvalid⟩ := hb
  rw [Option.mem_def] at hbuf
  refine ⟨_, ?_, modified_update hio b data⟩
  simp [store, setDirty, hbuf, hvalid]

lemma Same.evict {io' : Io} (hio : io.Coherent) (hevict : io.evict b = some io') : Same io io' := by
  unfold Io.evict at hevict
  simp only [Option.bind_eq_bind, Option.bind_eq_some_iff, Option.ite_none_left_eq_some,
    Option.some.injEq] at hevict
  obtain ⟨buf, hbuf, hclean, rfl⟩ := hevict
  have hb : ¬ io.Dirty b := by
    rintro ⟨buf', hbuf', hd⟩
    obtain rfl : buf = buf' := Option.some.inj (hbuf.symm.trans hbuf')
    exact hclean hd
  refine ⟨rfl, ?_, ?_, ?_⟩
  · funext c
    by_cases hc : c = b
    · subst hc
      rw [content_eq_disk hio hb]
      simp [Io.content]
    · simp [Io.content, update_of_ne hc]
  · intro c
    by_cases hc : c = b
    · subst hc
      apply iff_of_false _ hb
      simp [Dirty]
    · simp [Dirty, update_of_ne hc]
  · intro c buf' hbuf'
    have hc : c ≠ b := by
      rintro rfl
      simp at hbuf'
    simp only [update_of_ne hc] at hbuf'
    exact hio c buf' hbuf'

lemma coherent_crash : io.crash.Coherent := by
  simp [Coherent, crash]

@[simp] lemma not_dirty_crash : ¬ io.crash.Dirty b := by
  simp [Dirty, crash]

end Io

end Xv6Bfs
