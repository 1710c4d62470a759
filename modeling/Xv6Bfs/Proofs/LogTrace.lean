import Mathlib.Order.Interval.Finset.Nat
import Xv6Bfs.LogTrace
import Xv6Bfs.Sysfile
import Xv6Bfs.Proofs.FileArray

/-!
# A write fits its transaction

The functions with the calls of `log_write` compute what those without them compute. The blocks
that one call of `writei` logs are those of the file that it writes to, a bitmap block for each block
that it takes, the indirect block and the block of the inode.
-/

namespace Xv6Bfs

open Finset Function Outcome Ownership Program

/-! ### Leaving out the log -/

def Erases {α β : Type} (x : LogM α) (pack : α → Content → β) (y : Content → Except FsPanic β) : Prop :=
  ∀ s, Wp x s (fun a s' => y s.content = .ok (pack a s'.content)) (fun e _ => y s.content = .error e)

def withContent {α : Type} (r : α × Dinode) (c : Content) : α × Dinode × Content :=
  (r.1, r.2, c)

section Erases

variable {α β γ δ : Type} {x : LogM α} {pack : α → Content → β} {y : Content → Except FsPanic β}

lemma erases_pure {a : α} : Erases (pure a) pack (fun c => .ok (pack a c)) :=
  fun _ => rfl

lemma Erases.bind {f : α → LogM γ} (pack' : γ → Content → δ) {g : β → Except FsPanic δ} (hx : Erases x pack y) (s : Logged)
    (hf : ∀ a s', Wp (f a) s' (fun b s'' => g (pack a s'.content) = .ok (pack' b s''.content))
      (fun e _ => g (pack a s'.content) = .error e)) :
    Wp (x >>= f) s (fun b s' => (y s.content >>= g) = .ok (pack' b s'.content))
      (fun e _ => (y s.content >>= g) = .error e) := by
  refine Wp.bind (hx s) ?_ ?_
  · intro a s' hok
    rw [hok]
    exact hf a s'
  · intro e s' herr
    rw [herr]
    rfl

variable (sb : FsSuperblock)

lemma erases_balloc : Erases (LogM.balloc sb) Prod.mk (balloc sb) := by
  intro s
  unfold LogM.balloc balloc
  rw [wp_bind, wp_get]
  cases findFree sb s.content with
  | none => rfl
  | some b => rfl

lemma erases_allocIfZero (addr : Blockno) : Erases (LogM.allocIfZero sb addr) Prod.mk (allocIfZero sb addr) := by
  unfold LogM.allocIfZero allocIfZero
  split
  · exact erases_balloc sb
  · exact erases_pure

lemma erases_bmap (ip : Dinode) (bn : ℕ) : Erases (LogM.bmap sb ip bn) withContent (bmap sb ip bn) := by
  intro s
  unfold LogM.bmap bmap
  split
  · exact (erases_allocIfZero sb _).bind withContent s (fun _ _ => rfl)
  dsimp only
  split
  · refine (erases_allocIfZero sb _).bind withContent s ?_
    intro ind s
    unfold LogM.bread
    dsimp only
    rw [wp_bind, wp_bind, wp_get, wp_pure]
    split
    · exact (erases_balloc sb).bind withContent s (fun _ _ => rfl)
    · rfl
  · rfl

lemma erases_writeLoop : ∀ (fuel off : ℕ) (src : List (BitVec 8)) (ip : Dinode),
    Erases (LogM.writeLoop sb ip fuel off src) withContent (writeLoop sb ip fuel off src) := by
  intro fuel
  induction fuel with
  | zero => exact fun _ _ _ _ => rfl
  | succ fuel ih =>
    intro off src ip s
    rw [LogM.writeLoop, writeLoop]
    split
    · rfl
    · refine (erases_bmap sb ip _).bind withContent s ?_
      rintro ⟨addr, ip⟩ s
      exact ih _ _ ip _

lemma erases_writei (devsw : Devsw) (inum : ℕ) (ip : Dinode) (src : List (BitVec 8)) (off n : BitVec 32) :
    Erases (LogM.writei sb devsw inum ip src off n) withContent (writei sb devsw inum ip src off n) := by
  intro s
  unfold LogM.writei writei
  split
  · split
    · rfl
    · cases devsw.write ip.major.toNat with
      | none => rfl
      | some write => rfl
  split
  · rfl
  split
  · rfl
  refine (erases_writeLoop sb _ _ _ ip).bind withContent s ?_
  rintro ⟨off', ip'⟩ s
  dsimp only [withContent]
  split
  · rfl
  · rfl

end Erases

/-! ### What is logged -/

/-- From `s` to `s'` the log gets these blocks, and for each block that is taken at most one more, its bitmap
block. -/
def Logged.Adds (sb : FsSuperblock) (s s' : Logged) (blocks : Finset Blockno) : Prop :=
  ∃ maps : Finset Blockno,
    maps.card + ((s'.content.image sb).free sb).card ≤ ((s.content.image sb).free sb).card ∧
    s'.log.toFinset ⊆ s.log.toFinset ∪ maps ∪ blocks

section Adds

variable {sb : FsSuperblock} {s s' s'' : Logged} {A B : Finset Blockno}

lemma Logged.Adds.refl (s : Logged) (blocks : Finset Blockno) : s.Adds sb s blocks :=
  ⟨∅, by simp, by simp⟩

lemma Logged.Adds.trans (h : s.Adds sb s' A) (h' : s'.Adds sb s'' B) : s.Adds sb s'' (A ∪ B) := by
  obtain ⟨maps, hcard, hlog⟩ := h
  obtain ⟨maps', hcard', hlog'⟩ := h'
  refine ⟨maps ∪ maps', ?_, ?_⟩
  · have := card_union_le maps maps'
    omega
  · intro b hb
    have := hlog' hb
    have := @hlog b
    simp only [mem_union] at *
    tauto

lemma Logged.Adds.mono (h : s.Adds sb s' A) (hAB : A ⊆ B) : s.Adds sb s' B := by
  obtain ⟨maps, hcard, hlog⟩ := h
  exact ⟨maps, hcard, hlog.trans (union_subset_union_right hAB)⟩

lemma Logged.adds_logWrite {b : Blockno} (hb : sb.IsData b) (f : Block → Block) :
    s.Adds sb ⟨s.content.logWrite b f, s.log ++ [b]⟩ {b} := by
  refine ⟨∅, ?_, ?_⟩
  · rw [Content.image_logWrite hb]
    simp [Image.free]
  · intro b'
    simp

lemma wp_balloc (hres : (s.content.image sb).Reserved sb) :
    Wp (LogM.balloc sb) s
      (fun b s' => sb.IsData b ∧ (s'.content.image sb).Reserved sb ∧ s.Adds sb s' {b}) (fun _ s' => s' = s) := by
  have hspec := balloc_spec hres
  unfold LogM.balloc
  unfold balloc at hspec
  rw [wp_bind, wp_get]
  cases hfind : findFree sb s.content with
  | none => rfl
  | some k =>
    rw [hfind] at hspec
    obtain ⟨hdata, hfree, himage⟩ := hspec
    dsimp only at hdata hfree himage
    have hused := congrArg Image.used himage
    have hcard := Image.card_free_take hdata hfree hused
    refine ⟨hdata, ?_, {sb.bblock k}, (Nat.add_comm _ _).trans_le hcard.le, ?_⟩
    · intro b hb
      refine (congrFun hused b).trans ?_
      by_cases hbk : b = BitVec.ofNat 32 k
      · simp [hbk]
      · simpa [update_of_ne hbk] using hres b hb
    · intro b
      simp

lemma wp_allocIfZero {addr : Blockno} (hres : (s.content.image sb).Reserved sb)
    (haddr : addr ≠ 0 → sb.IsData addr) :
    Wp (LogM.allocIfZero sb addr) s
      (fun b s' => (addr ≠ 0 → b = addr) ∧ sb.IsData b ∧ (s'.content.image sb).Reserved sb ∧ s.Adds sb s' {b})
      (fun _ s' => s' = s) := by
  unfold LogM.allocIfZero
  split
  · rename_i hzero
    exact (wp_balloc hres).imp (fun _ _ h => ⟨fun hne => absurd hzero hne, h⟩)
  · rename_i hne
    exact ⟨fun _ => rfl, haddr hne, hres, .refl s _⟩

lemma wp_bmap {ip : Dinode} (bn : ℕ) (hres : (s.content.image sb).Reserved sb)
    (haddr : ∀ k, ip.addrs k ≠ 0 → sb.IsData (ip.addrs k)) :
    Wp (LogM.bmap sb ip bn) s
      (fun r s' => (ip.addrs (Fin.last _) ≠ 0 → r.2.addrs (Fin.last _) = ip.addrs (Fin.last _)) ∧
        (NDIRECT ≤ bn → r.2.addrs (Fin.last _) ≠ 0) ∧
        s.Adds sb s' (insert r.1 (if bn < NDIRECT then ∅ else {r.2.addrs (Fin.last _)})))
      (fun _ s' => ∃ ind, (ip.addrs (Fin.last _) ≠ 0 → ind = ip.addrs (Fin.last _)) ∧ s.Adds sb s' {ind}) := by
  unfold LogM.bmap
  split
  · rename_i hdir
    refine Wp.bind (wp_allocIfZero hres (haddr _)) ?_ ?_
    · rintro addr s' ⟨-, -, -, hadds⟩
      have hslot : Fin.last NDIRECT ≠ Fin.ofNat _ bn := by
        intro h
        have hval := congrArg Fin.val h
        rw [Fin.val_last, Fin.val_ofNat, Nat.mod_eq_of_lt (by omega)] at hval
        omega
      refine ⟨fun _ => update_of_ne hslot _ _, fun h => absurd hdir (Nat.not_lt.mpr h), ?_⟩
      exact hadds
    · rintro _ s' rfl
      exact ⟨ip.addrs (Fin.last _), fun _ => rfl, .refl _ _⟩
  dsimp only
  split
  · rename_i hdir hbn
    refine Wp.bind (wp_allocIfZero hres (haddr _)) ?_ ?_
    · rintro ind s' ⟨hind, hdata, hres', hadds⟩
      -- both ways out leave the address of the indirect block in the inode
      have hlast : ∀ (addr : Blockno) s'', s.Adds sb s'' {addr, ind} → (ip.addrs (Fin.last _) ≠ 0 →
            update ip.addrs (Fin.last _) ind (Fin.last _) = ip.addrs (Fin.last _)) ∧
          (NDIRECT ≤ bn → update ip.addrs (Fin.last _) ind (Fin.last _) ≠ 0) ∧
          s.Adds sb s'' {addr, update ip.addrs (Fin.last _) ind (Fin.last _)} := by
        intro addr s'' hboth
        rw [update_self]
        exact ⟨hind, fun _ => hdata.ne_zero, hboth⟩
      unfold LogM.bread
      rw [wp_bind, wp_bind, wp_get, wp_pure]
      split
      · refine Wp.bind (wp_balloc hres') ?_ ?_
        · rintro addr s'' ⟨-, -, hadds'⟩
          rw [wp_bind, LogM.logWrite, wp_modify, wp_pure]
          refine hlast _ _ ((hadds.trans (hadds'.trans (Logged.adds_logWrite hdata _))).mono ?_)
          intro b
          simp
        · rintro _ s'' rfl
          exact ⟨ind, hind, hadds⟩
      · exact hlast _ _ (hadds.mono (by simp))
    · rintro _ s' rfl
      exact ⟨ip.addrs (Fin.last _), fun _ => rfl, .refl _ _⟩
  · exact ⟨ip.addrs (Fin.last _), fun _ => rfl, .refl _ _⟩

end Adds

/-! ### The loop -/

def touched (off len : ℕ) : ℕ :=
  if len = 0 then 0 else (off + len - 1) / BSIZE - off / BSIZE + 1

lemma touched_round {off len : ℕ} (h : len ≠ 0) :
    touched off len = 1 + touched (off + chunk off len) (len - chunk off len) := by
  unfold touched chunk BSIZE
  rw [if_neg h]
  split <;> omega

lemma BlockSlot.of_index {s : BlockSlot} (h : s ≠ .indirect) : BlockSlot.of s.index = s := by
  cases s with
  | direct k => exact dif_pos k.isLt
  | indirect => exact absurd rfl h
  | entry k =>
    have hk : ¬ NDIRECT + k.val < NDIRECT := by omega
    simp [BlockSlot.of, BlockSlot.index, hk]

section Loop

variable {sb : FsSuperblock} {i : ℕ}

lemma isData_addrs {c : Content} {d : Dinode}
    (hown : Owned {b | sb.IsData b} {b | (c.image sb).used b = true} ((c.image sb).patch i d).ref) (htype : d.type ≠ 0)
    (k : Fin (NDIRECT + 1)) (hk : d.addrs k ≠ 0) : sb.IsData (d.addrs k) := by
  have hslot : ∃ s, d.ref (c.image sb).data s = some (d.addrs k) := by
    cases k using Fin.lastCases with
    | last => exact ⟨.indirect, nonzero_eq_some.mpr ⟨rfl, hk⟩⟩
    | cast j => exact ⟨.direct j, nonzero_eq_some.mpr ⟨rfl, hk⟩⟩
  obtain ⟨s, hs⟩ := hslot
  rw [← Image.ref_patch_self (i := i) htype] at hs
  exact hown.mem_pool hs

lemma insert_union_subset {A data : Finset Blockno} {addr ind : Blockno} (hA : A ⊆ {ind}) :
    insert addr A ∪ {addr} ∪ insert ind data ⊆ insert ind (insert addr data) := by
  intro b
  have := @hA b
  simp only [mem_union, Finset.mem_insert, mem_singleton] at *
  tauto

def LoopLogs (sb : FsSuperblock) (s s' : Logged) (d : Dinode) (off len : ℕ) : Prop :=
  ∃ ind, ∃ data : Finset Blockno, (d.addrs (Fin.last _) ≠ 0 → ind = d.addrs (Fin.last _)) ∧
    data.card ≤ touched off len ∧ s.Adds sb s' (insert ind data)

lemma wp_writeLoop : ∀ (fuel n off : ℕ) (src : List (BitVec 8)) (d : Dinode) (s : Logged), n ≤ MAXFILE * BSIZE →
    d.type ≠ 0 → (s.content.image sb).Reserved sb →
    Owned {b | sb.IsData b} {b | (s.content.image sb).used b = true} ((s.content.image sb).patch i d).ref →
    d.Fills (s.content.image sb).data n → off ≤ n → off + src.length ≤ MAXFILE * BSIZE →
    Wp (LogM.writeLoop sb d fuel off src) s (fun _ s' => LoopLogs sb s s' d off src.length)
      (fun _ s' => LoopLogs sb s s' d off src.length) := by
  have hnone : ∀ off len (d : Dinode) (s : Logged), LoopLogs sb s s d off len := by
    intro off len d s
    exact ⟨d.addrs (Fin.last _), ∅, fun _ => rfl, Nat.zero_le _, .refl s _⟩
  intro fuel
  induction fuel with
  | zero => exact fun n off src d s _ _ _ _ _ _ _ => hnone ..
  | succ fuel ih =>
    intro n off src d s hn htype hres hown hfills hoff hmax
    rw [LogM.writeLoop]
    split
    · exact hnone ..
    rename_i hsrc
    have hlen : src.length ≠ 0 := by simpa using hsrc
    obtain ⟨hpos, hle, hblock⟩ := chunk_bounds off hlen
    have hbn : off / BSIZE < MAXFILE := by
      rw [Nat.div_lt_iff_lt_mul (by decide)]
      omega
    have htake : (src.take (chunk off src.length)).length = chunk off src.length := by
      simpa using hle
    have hdrop : (src.drop (chunk off src.length)).length = src.length - chunk off src.length := by
      simp
    have hbmap := (wp_bmap (off / BSIZE) hres (isData_addrs hown htype)).and_returns (erases_bmap sb d _ s).returns
    refine Wp.bind hbmap ?_ ?_
    · rintro ⟨addr, d₁⟩ s₁ ⟨⟨hkeep, hind, hadds⟩, hok⟩
      obtain ⟨hg, hb⟩ := (bmap_spec hres hown htype hbn).of_ok hok
      dsimp only [withContent] at hkeep hind hadds hg hb ⊢
      have hw := hg.round (src.take (chunk off src.length)) hown htype hb hfills hn hoff (by omega)
        (by omega) (by omega)
      have hfills' := hw.fills
      rw [htake] at hfills'
      rw [wp_bind, LogM.logWrite, wp_modify]
      have hadds' := hadds.trans (Logged.adds_logWrite (hg.isData htype hb)
        (·.store (off % BSIZE) (src.take (chunk off src.length))))
      have hrest := ih (max n (off + chunk off src.length)) (off + chunk off src.length)
        (src.drop (chunk off src.length)) d₁ ⟨s₁.content.logWrite addr _, s₁.log ++ [addr]⟩ (by omega)
        (by rwa [hg.attrs]) hw.reserved hw.owned hfills' (by omega) (by omega)
      have hjoin : ∀ s', LoopLogs sb ⟨s₁.content.logWrite addr
            (·.store (off % BSIZE) (src.take (chunk off src.length))), s₁.log ++ [addr]⟩ s' d₁
            (off + chunk off src.length) (src.drop (chunk off src.length)).length →
          LoopLogs sb s s' d off src.length := by
        rintro s' ⟨ind, data, hlast, hcard, hmore⟩
        refine ⟨ind, insert addr data, ?_, ?_, (hadds'.trans hmore).mono ?_⟩
        · intro hne
          rw [← hkeep hne]
          exact hlast (by rwa [hkeep hne])
        · have := card_insert_le addr data
          rw [hdrop] at hcard
          rw [touched_round hlen]
          omega
        · apply insert_union_subset
          split
          · exact empty_subset _
          · rename_i hdir
            rw [hlast (hind (Nat.not_lt.mp hdir))]
      exact hrest.mono (fun _ => hjoin) (fun _ => hjoin)
    · rintro _ s₁ ⟨ind, hlast, hadds⟩
      exact ⟨ind, ∅, hlast, Nat.zero_le _, hadds⟩

end Loop

/-! ### The whole write -/

lemma blocksFor_le_add (m m' : ℕ) :
    blocksFor m' ≤ blocksFor m + (1 + ((m' + BSIZE - 1) / BSIZE - (m + BSIZE - 1) / BSIZE)) := by
  have hsub : Finset.univ.filter (fun s : BlockSlot => s.index * BSIZE < m') ⊆
      Finset.univ.filter (fun s : BlockSlot => s.index * BSIZE < m) ∪
        insert BlockSlot.indirect ((Finset.Ico ((m + BSIZE - 1) / BSIZE) ((m' + BSIZE - 1) / BSIZE)).image BlockSlot.of) := by
    intro s hs
    simp only [mem_union, Finset.mem_insert, mem_filter, mem_univ, true_and, mem_image, mem_Ico] at hs ⊢
    by_cases hlt : s.index * BSIZE < m
    · exact .inl hlt
    right
    by_cases hind : s = .indirect
    · exact .inl hind
    refine .inr ⟨s.index, ?_, BlockSlot.of_index hind⟩
    unfold BSIZE at *
    omega
  refine (card_le_card hsub).trans ((card_union_le _ _).trans (Nat.add_le_add_left ?_ _))
  refine (card_insert_le _ _).trans ?_
  rw [Nat.add_comm]
  exact Nat.add_le_add_left (card_image_le.trans_eq (Nat.card_Ico _ _)) 1

section Write

variable {sb : FsSuperblock} {i : ℕ} {d : Dinode} {c : Content}

lemma touched_add_new_le {size off len : ℕ} (hoff : off ≤ size) (hlen : len ≤ 1536) :
    touched off len + ((max size (off + len) + BSIZE - 1) / BSIZE - (size + BSIZE - 1) / BSIZE) ≤ 7 := by
  have htouched : touched off len ≤ 1 + (off % 512 + len - 1) / 512 := by
    unfold touched BSIZE
    split
    · omega
    · omega
  have hnew : (max size (off + len) + BSIZE - 1) / BSIZE ≤ (size + BSIZE - 1) / BSIZE + 3 := by
    unfold BSIZE
    omega
  unfold BSIZE at *
  omega

lemma LoopLogs.card_lt {s : Logged} {off len : ℕ} (h : LoopLogs sb ⟨c, []⟩ s d off len)
    (hfree : ((c.image sb).free sb).card + blocksFor d.size.toNat ≤
      ((s.content.image sb).free sb).card + blocksFor (max d.size.toNat (off + len)))
    (hoff : off ≤ d.size.toNat) (hlen : len ≤ SysM.writeMax) : s.log.toFinset.card < MAXOPBLOCKS := by
  obtain ⟨ind, data, -, hdata, maps, hmaps, hlog⟩ := h
  have hcard := card_le_card hlog
  rw [List.toFinset_nil, empty_union] at hcard
  have hunion := card_union_le maps (insert ind data)
  have hinsert := card_insert_le ind data
  have hblocks := blocksFor_le_add d.size.toNat (max d.size.toNat (off + len))
  have hmax : SysM.writeMax = 1536 := by decide
  have hop : MAXOPBLOCKS = 10 := rfl
  have hsum := touched_add_new_le hoff (hmax ▸ hlen)
  dsimp only at hmaps
  omega

lemma wp_writei_log (hres : (c.image sb).Reserved sb)
    (hown : Owned {b | sb.IsData b} {b | (c.image sb).used b = true} ((c.image sb).patch i d).ref) (htype : d.type ≠ 0)
    (hholes : d.NoHoles (c.image sb).data) (devsw : Devsw) (src : List (BitVec 8)) {off n : BitVec 32}
    (hoff : off ≤ d.size) (hn : n.toNat ≤ SysM.writeMax) :
    Wp (LogM.writei sb devsw i d src off n) ⟨c, []⟩ (fun _ s => s.log.toFinset.card ≤ MAXOPBLOCKS)
      (fun _ s => s.log.toFinset.card ≤ MAXOPBLOCKS) := by
  unfold LogM.writei
  split
  · split
    · exact Nat.zero_le _
    · cases devsw.write d.major.toNat with
      | none => exact Nat.zero_le _
      | some write => exact Nat.zero_le _
  split
  · exact Nat.zero_le _
  split
  · exact Nat.zero_le _
  rename_i hwrap hmax
  have hsize := hholes.size_le
  have hbound : MAXFILE * BSIZE + SysM.writeMax < 2 ^ 32 := by decide
  have hoff' : off.toNat ≤ d.size.toNat := hoff
  rw [BitVec.toNat_add, Nat.mod_eq_of_lt (by omega)] at hmax
  have hlen : (src.take n.toNat).length ≤ n.toNat := List.length_take_le _ _
  have hspec := writeLoop_spec (i := i) hholes.size_le n.toNat off.toNat (src.take n.toNat) d c htype hres hown hholes.fills
    hoff (by omega) hlen
  refine Wp.bind ((wp_writeLoop n.toNat d.size.toNat off.toNat (src.take n.toNat) d ⟨c, []⟩ hholes.size_le htype hres hown
    hholes.fills hoff (by omega)).and (erases_writeLoop sb _ _ _ d ⟨c, []⟩)) ?_ ?_
  · rintro ⟨off', d'⟩ s ⟨hlogs, hok⟩
    have hcard := hlogs.card_lt (hspec.of_ok hok).2.card.ge hoff (hlen.trans hn)
    dsimp only
    split
    · change (s.log ++ [sb.iblock i]).toFinset.card ≤ MAXOPBLOCKS
      rw [List.toFinset_append]
      exact (card_union_le _ _).trans hcard
    · exact hcard.le
  · rintro e s ⟨hlogs, herr⟩
    have hfull := (hspec.of_error herr).2
    exact (hlogs.card_lt (by omega) hoff (hlen.trans hn)).le

end Write

/-- One call of `writei` for a piece of `filewrite` logs at most `MAXOPBLOCKS` different blocks, whether it returns
or stops for want of free blocks. -/
theorem writei_fits_reservation {sb : FsSuperblock} {i : ℕ} {d : Dinode} {c : Content}
    (hres : (c.image sb).Reserved sb)
    (hown : Owned {b | sb.IsData b} {b | (c.image sb).used b = true} ((c.image sb).patch i d).ref) (htype : d.type ≠ 0)
    (hholes : d.NoHoles (c.image sb).data) (devsw : Devsw) (src : List (BitVec 8)) (off n : BitVec 32)
    (hoff : off ≤ d.size) (hn : n.toNat ≤ SysM.writeMax) :
    (∀ r s, LogM.writei sb devsw i d src off n ⟨c, []⟩ = .ok r s →
      writei sb devsw i d src off n c = .ok (r.1, r.2, s.content) ∧ s.log.toFinset.card ≤ MAXOPBLOCKS) ∧
    ∀ e s, LogM.writei sb devsw i d src off n ⟨c, []⟩ = .error e s →
      writei sb devsw i d src off n c = .error e ∧ s.log.toFinset.card ≤ MAXOPBLOCKS := by
  have hboth := (erases_writei sb devsw i d src off n ⟨c, []⟩).and
    (wp_writei_log hres hown htype hholes devsw src hoff hn)
  constructor
  · intro r s hok
    have hpost := Returns.of_ok hboth hok
    exact hpost
  · intro e s herr
    have hexn := hboth.of_error herr
    exact hexn

/-- Two bytes at the start of an empty file: the block, its bitmap block and the block of the inode. -/
theorem writei_fits_reservation_small :
    ∃ r s, LogM.writei smallSuperblock ⟨fun _ => none, fun _ => none⟩ 1 ⟨T_FILE, 0, 0, 1, 0, fun _ => 0⟩ [1, 2] 0 2
        ⟨smallImage ⟨T_FILE, 0, 0, 1, 0, fun _ => 0⟩, []⟩ = .ok r s ∧
      s.log = [34, 35, 35, 32] ∧ s.log.toFinset.card ≤ MAXOPBLOCKS := by
  have hwf := smallImage_wellFormed ⟨T_FILE, 0, 0, 1, 0, fun _ => 0⟩ rfl (fun _ => rfl)
  have hinode := inode_smallImage smallSuperblock_small ⟨T_FILE, 0, 0, 1, 0, fun _ => 0⟩ 1
  rw [if_pos rfl] at hinode
  have hpatch := Image.patch_inode ((smallImage ⟨T_FILE, 0, 0, 1, 0, fun _ => 0⟩).image smallSuperblock) 1
  have hholes := hwf.noHoles 1 (by rw [hinode]; exact ⟨by decide, by decide⟩)
  rw [hinode] at hpatch hholes
  have hrun : (match LogM.writei smallSuperblock ⟨fun _ => none, fun _ => none⟩ 1 ⟨T_FILE, 0, 0, 1, 0, fun _ => 0⟩ [1, 2]
      0 2 ⟨smallImage ⟨T_FILE, 0, 0, 1, 0, fun _ => 0⟩, []⟩ with
    | .ok _ s => decide (s.log = [34, 35, 35, 32])
    | .error _ _ => false) = true := by
    decide +kernel
  have hfits := writei_fits_reservation hwf.reserved (by rw [hpatch]; exact hwf.owned) (by decide) hholes
    ⟨fun _ => none, fun _ => none⟩ [1, 2] 0 2 (by decide) (by decide)
  cases hok : LogM.writei smallSuperblock ⟨fun _ => none, fun _ => none⟩ 1 ⟨T_FILE, 0, 0, 1, 0, fun _ => 0⟩ [1, 2]
      0 2 ⟨smallImage ⟨T_FILE, 0, 0, 1, 0, fun _ => 0⟩, []⟩ with
  | ok r s =>
    rw [hok] at hrun
    exact ⟨r, s, rfl, of_decide_eq_true hrun, (hfits.1 r s hok).2⟩
  | error e s =>
    rw [hok] at hrun
    cases hrun

end Xv6Bfs
