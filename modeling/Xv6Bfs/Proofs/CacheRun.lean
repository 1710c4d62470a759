import Xv6Bfs.Proofs.CacheSteps

/-!
# The buffer cache is transparent

Readers get what was stored last, and a finished `commit` has left it on the disk.
-/

namespace Xv6Bfs

open Option Transition

lemma cacheInv_of_reachable {sb : Superblock} {disksize : ℕ} {s : CacheRun}
    (hs : Reachable (cacheSystem sb disksize) s) : s.Inv sb := by
  apply Reach.invariant (CacheRun.Inv sb) _ (fun s e s' h _ hstep => (h.step hstep).1) hs
  rintro s ⟨hbuf, hlist, hlh, hout, hcommitting, hpc, hrefs, hstored⟩
  have hcache : ∀ b, s.cache.io.cache b = none := by
    intro b
    have hfind : (List.finRange NBUF).find? (fun i => (s.cache.buf i).Is 1 b) = none := by
      rw [List.find?_eq_none]
      intro i _ hi
      have hdev := (of_decide_eq_true hi).1
      rw [hbuf] at hdev
      cases hdev
    simp only [Bcache.io, hfind, map_none]
  have hidle : ∀ {q m}, s.pc q = m → m = .idle := fun hq => hq.symm.trans (hpc _)
  have hclean : ∀ b, ¬ s.cache.io.Dirty b := by
    rintro b ⟨y, hy, -⟩
    rw [hcache b] at hy
    cases hy
  refine ⟨⟨?_, ?_, ?_, ?_, ?_, ?_⟩, ?_, fun b hb => absurd hb (hclean b), hlh ▸ Nat.zero_le _, ?_, ?_, fun _ => hout, ?_⟩
  · intro i
    rw [hlist, List.mem_reverse]
    exact List.mem_finRange i
  · intro i j hi
    rw [hbuf] at hi
    cases hi
  · intro i
    rw [hbuf, hrefs]
    rfl
  · intro i q hq
    rw [hbuf] at hq
    cases hq
  · intro i _
    rw [hbuf]
    exact ⟨rfl, rfl⟩
  · intro b y hy
    rw [hcache b] at hy
    cases hy
  · funext b
    rw [hstored, Io.content, hcache]
    rfl
  · exact fun q i dev b hq => by cases hidle hq
  · exact fun q i hq => by cases hidle hq
  · exact fun q l hq => by cases hidle hq

variable {sb : Superblock} {disksize : ℕ} {s : CacheRun}

/-- The block and the content that an event stores; `commit` stores copies of its own. -/
def CacheEvent.stores (s : CacheRun) : CacheEvent → Option (Blockno × Block)
  | .logWrite _ i data | .bwrite _ i data => some ((s.cache.buf i).blockno, data)
  | _ => none

lemma CacheRun.stored_of_step {e : CacheEvent} {s' : CacheRun} (hstep : step sb disksize e s = some s')
    (he : ∀ p, e ≠ .commit p) : s'.stored = (e.stores s).elim s.stored fun w => Function.update s.stored w.1 w.2 := by
  cases e with
  | bget p dev b | releasesleep p i =>
    obtain ⟨-, hret⟩ := ite_none_right_eq_some.mp hstep
    obtain ⟨_, -, ⟨⟩⟩ := bind_eq_some_iff.mp hret
    rfl
  | fill p =>
    rw [step] at hstep
    split at hstep
    · obtain ⟨_, -, ⟨⟩⟩ := bind_eq_some_iff.mp hstep
      rfl
    · cases hstep
  | logWrite p i data =>
    simp only [step, logWrite, ite_none_left_eq_some, ite_none_right_eq_some] at hstep
    cases hstep.2.2.2.2
    rfl
  | bwrite p i data =>
    obtain ⟨-, hret⟩ := ite_none_right_eq_some.mp hstep
    obtain ⟨-, hret⟩ := ite_none_left_eq_some.mp hret
    obtain ⟨_, -, ⟨⟩⟩ := bind_eq_some_iff.mp hret
    rfl
  | unref p =>
    rw [step] at hstep
    split at hstep <;> cases hstep
    rfl
  | beginOp =>
    simp only [step, beginOp, ite_none_left_eq_some] at hstep
    cases hstep.2.2
    rfl
  | endOp p =>
    obtain ⟨-, hret⟩ := ite_none_right_eq_some.mp hstep
    obtain ⟨-, hret⟩ := ite_none_left_eq_some.mp hret
    split at hret <;> cases hret <;> rfl
  | commit p => exact absurd rfl (he p)

/-- The buffer cache and the log are transparent: a process reads what was stored last with `log_write`
or `bwrite`, whatever blocks have come and gone; buffers in use keep their blocks; and `commit` leaves on
the disk what has been stored, without a change to the blocks outside the log. -/
theorem bcache_transparent (hs : Reachable (cacheSystem sb disksize) s) :
    (∀ e s', CacheRun.step sb disksize e s = some s' → (∀ p, e ≠ .commit p) →
      s'.stored = (e.stores s).elim s.stored fun w => Function.update s.stored w.1 w.2) ∧
    (∀ p i dev b s', s.pc p = .bread i dev b → CacheRun.step sb disksize (.fill p) s = some s' →
      (s'.cache.buf i).lock = some p ∧ (s'.cache.buf i).Is dev b ∧ (s'.cache.buf i).data = s.stored b) ∧
    (∀ p i, (s.cache.buf i).lock = some p → (s.cache.buf i).data = s.stored (s.cache.buf i).blockno) ∧
    (∀ dev b, (∃ i, (s.cache.buf i).refcnt = 0 ∧ (s.cache.buf i).dirty = false) → (s.cache.bget dev b).isSome) ∧
    (∀ p i b, s.pc p = .bread i 1 b → b.toNat < disksize → (s.cache.buf i).lock = none →
      (CacheRun.step sb disksize (.fill p) s).isSome) ∧
    (∀ i, (s.cache.buf i).refcnt = s.refs.countP (·.2 = i)) ∧
    (∀ e s', CacheRun.step sb disksize e s = some s' → ∀ i,
      0 < (s.cache.buf i).refcnt ∨ (s.cache.buf i).dirty = true →
      (s'.cache.buf i).Is (s.cache.buf i).dev (s.cache.buf i).blockno) ∧
    (∀ p, s.pc p = .commit .done → s.cache.memdisk = s.stored) ∧
    ∀ p s', CacheRun.step sb disksize (.commit p) s = some s' → (∀ b ∈ s.lh, sb.Home b) → ∀ b, sb.Home b →
      s'.stored b = s.stored b := by
  have h := cacheInv_of_reachable hs
  refine ⟨fun e s' => CacheRun.stored_of_step, ?_, ?_, ?_, ?_, h.ok.count, fun e s' hstep => (h.step hstep).2, ?_, ?_⟩
  · intro p i dev b s' hpc hstep
    rw [CacheRun.step, hpc] at hstep
    obtain ⟨c, hfill, hs'⟩ := bind_eq_some_iff.mp hstep
    cases hs'
    obtain ⟨hmem, his⟩ := h.bread p i dev b hpc
    obtain ⟨-, -, -, -, hbuf⟩ := h.ok.fill hmem hfill
    change (c.buf i).lock = _ ∧ (c.buf i).Is dev b ∧ (c.buf i).data = _
    rw [hbuf, Function.update_self]
    refine ⟨rfl, his, ?_⟩
    rw [← h.stored, ← his.2]
  · intro p i hlock
    rw [← h.stored, h.ok.content_of_valid (h.ok.locked i p hlock).2]
  · rintro dev b ⟨i, hzero, hclean⟩
    refine Bcache.exists_bget h.ok.listed dev b ⟨i, ?_⟩
    rw [Bbuf.InUse, hzero, hclean]
    simp
  · intro p i b hpc hrange hlock
    obtain ⟨-, his⟩ := h.bread p i 1 b hpc
    obtain ⟨c, hfill⟩ := isSome_iff_exists.mp (Bcache.exists_fill his hlock hrange p)
    rw [CacheRun.step, hpc]
    dsimp only
    rw [hfill]
    rfl
  · intro p hpc
    have hclean := (h.commit p _ hpc).2.1
    rw [← h.stored]
    funext b
    exact (Io.content_eq_disk h.ok.coherent (hclean b)).symm
  · intro p s' hstep hlh b hb
    rw [CacheRun.step] at hstep
    split at hstep
    · rename_i l hpc
      exact h.stored_of_commit hpc hstep hlh hb
    · cases hstep

def emptyCache : CacheRun where
  cache := ⟨fun _ _ => 0, fun _ => ⟨⟨false, false, fun _ => 0⟩, 0, 0, 0, none⟩, (List.finRange NBUF).reverse⟩
  lh := []
  outstanding := 0
  committing := false
  pc _ := .idle
  refs := 0
  stored _ _ := 0

/-- A block is changed in a transaction and committed. -/
theorem bcache_transparent_committed :
    ∃ s, Reachable (cacheSystem mkfsSuperblock 1000) s ∧ s.pc 0 = .commit .done ∧ s.stored 100 0 = 7 ∧
      s.cache.memdisk 100 0 = 7 := by
  have hrun : ∃ s ∈ run (cacheSystem mkfsSuperblock 1000)
      ([.beginOp, .bget 0 1 100, .fill 0, .logWrite 0 0 (fun _ => 7), .releasesleep 0 0, .unref 0, .endOp 0] ++
        List.replicate 6 (.commit 0)) emptyCache, s.pc 0 = .commit .done ∧ s.stored 100 0 = 7 := by
    decide +kernel
  obtain ⟨s, hs, hpc, hstored⟩ := hrun
  have hreach : Reachable (cacheSystem mkfsSuperblock 1000) s :=
    Reachable.run (.init ⟨fun _ => rfl, rfl, rfl, rfl, rfl, fun _ => rfl, rfl, rfl⟩) hs
  obtain ⟨-, -, -, -, -, -, -, hdisk, -⟩ := bcache_transparent hreach
  refine ⟨s, hreach, hpc, hstored, ?_⟩
  rw [hdisk 0 hpc, hstored]

end Xv6Bfs
