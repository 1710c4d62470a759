import Xv6Bfs.Proofs.Bcache

/-!
# The steps of the processes on the buffer cache

What holds of the cache, the log and the processes between any two steps: each block has the content that was stored in
it last, and what is dirty is in the log.
-/

namespace Xv6Bfs

open Function Option

namespace CacheRun

variable {sb : Superblock} {s s' : CacheRun} {p : Pid} {n : ℕ} {l : CommitPc} {i : BufId} {c : Bcache}
  {b : Blockno} {data : Block}

/-- The first `n` blocks of the header are in their slots. -/
def Copied (sb : Superblock) (s : CacheRun) (n : ℕ) : Prop :=
  (∀ b ∈ s.lh, sb.Home b) → ∀ i b, i < n → s.lh[i]? = some b → s.stored (sb.slot i) = s.stored b

/-- What `commit` has done when it is about to go on. -/
def Stage (sb : Superblock) (s : CacheRun) : CommitPc → Prop
  | .writeLog tail => s.Copied sb tail
  | .writeHead => s.Copied sb s.lh.length
  | .installTrans tail => s.Copied sb s.lh.length ∧ ∀ b, s.cache.io.Dirty b → b ∈ s.lh.drop tail
  | .clear | .done => ∀ b, ¬ s.cache.io.Dirty b

/-- Between any two steps. -/
structure Inv (sb : Superblock) (s : CacheRun) : Prop where
  ok : s.cache.Ok s.refs
  stored : s.cache.io.content = s.stored
  dirty : ∀ b, s.cache.io.Dirty b → b ∈ s.lh
  fits : s.lh.length ≤ sb.nlog - 1
  bread : ∀ p i dev b, s.pc p = .bread i dev b → (p, i) ∈ s.refs ∧ (s.cache.buf i).Is dev b
  brelse : ∀ p i, s.pc p = .brelse i → (p, i) ∈ s.refs ∧ (s.cache.buf i).lock ≠ some p
  outstanding : s.committing = true → s.outstanding = 0
  commit : ∀ p l, s.pc p = .commit l → s.committing = true ∧ s.Stage sb l ∧ ∀ q l', s.pc q = .commit l' → q = p

def Keeps (s s' : CacheRun) : Prop :=
  ∀ i, (s.cache.buf i).InUse → (s'.cache.buf i).Is (s.cache.buf i).dev (s.cache.buf i).blockno

lemma Inv.not_commit (h : Inv sb s) (hs : s.committing ≠ true) : s.pc p ≠ .commit l :=
  fun hp => hs (h.commit p l hp).1

/-- A step of `p` leaves the buffers that are in use, and what the other processes have, alone. -/
structure Frame (p : Pid) (s s' : CacheRun) : Prop where
  pc : ∀ q, q ≠ p → s'.pc q = s.pc q
  keeps : s.Keeps s'
  lock : ∀ i q, q ≠ p → (s'.cache.buf i).lock = some q → (s.cache.buf i).lock = some q
  refs : ∀ q i, q ≠ p → (q, i) ∈ s.refs → (q, i) ∈ s'.refs

lemma goto_pc_self (s : CacheRun) (p : Pid) (m : CachePc) : (s.goto p m).pc p = m :=
  update_self ..

lemma goto_pc_of_ne (s : CacheRun) (m : CachePc) {q : Pid} (hq : q ≠ p) : (s.goto p m).pc q = s.pc q :=
  update_of_ne hq ..

lemma Frame.of_pc (hpc : ∀ q, q ≠ p → s'.pc q = s.pc q) (hcache : s'.cache = s.cache) (hrefs : s'.refs = s.refs) :
    Frame p s s' :=
  ⟨hpc, fun _ _ => hcache ▸ Bbuf.is_self _, fun _ _ _ => hcache ▸ id, fun _ _ _ => hrefs ▸ id⟩

/-- An access to one buffer, for which the process `p` may take or give up the lock. -/
lemma Frame.of_update {x : Bbuf} (hpc : ∀ q, q ≠ p → s'.pc q = s.pc q)
    (hbuf : s'.cache.buf = update s.cache.buf i x) (his : x.Is (s.cache.buf i).dev (s.cache.buf i).blockno)
    (hlock : ∀ q, q ≠ p → x.lock = some q → (s.cache.buf i).lock = some q)
    (hrefs : ∀ q i, q ≠ p → (q, i) ∈ s.refs → (q, i) ∈ s'.refs) : Frame p s s' where
  pc := hpc
  keeps := by
    unfold Keeps
    rw [hbuf]
    refine (forall_update_iff _ fun j (y : Bbuf) => (s.cache.buf j).InUse → y.Is _ _).mpr ⟨fun _ => his, ?_⟩
    exact fun j _ _ => Bbuf.is_self _
  lock := by
    rw [hbuf]
    exact (forall_update_iff _ fun j (y : Bbuf) =>
      ∀ q, q ≠ p → y.lock = some q → (s.cache.buf j).lock = some q).mpr ⟨hlock, fun _ _ _ _ => id⟩
  refs := hrefs

/-- The processes in `bread` and `brelse` after a step of `p`. -/
lemma Inv.of_frame (h : Inv sb s) (hf : Frame p s s') (hok : s'.cache.Ok s'.refs)
    (hstored : s'.cache.io.content = s'.stored) (hdirty : ∀ b, s'.cache.io.Dirty b → b ∈ s'.lh)
    (hfits : s'.lh.length ≤ sb.nlog - 1)
    (hbread : ∀ i dev b, s'.pc p = .bread i dev b → (p, i) ∈ s'.refs ∧ (s'.cache.buf i).Is dev b)
    (hbrelse : ∀ i, s'.pc p = .brelse i → (p, i) ∈ s'.refs ∧ (s'.cache.buf i).lock ≠ some p)
    (hout : s'.committing = true → s'.outstanding = 0)
    (hcommit : ∀ q l, s'.pc q = .commit l → s'.committing = true ∧ s'.Stage sb l ∧
      ∀ q' l', s'.pc q' = .commit l' → q' = q) : Inv sb s' ∧ s.Keeps s' := by
  refine ⟨⟨hok, hstored, hdirty, hfits, ?_, ?_, hout, hcommit⟩, hf.keeps⟩
  · intro q i dev b hq
    by_cases hqp : q = p
    · subst hqp
      exact hbread i dev b hq
    · rw [hf.pc q hqp] at hq
      obtain ⟨hmem, his⟩ := h.bread q i dev b hq
      exact ⟨hf.refs q i hqp hmem, (hf.keeps i (.inl (h.ok.refcnt_pos hmem))).trans his⟩
  · intro q i hq
    by_cases hqp : q = p
    · subst hqp
      exact hbrelse i hq
    · rw [hf.pc q hqp] at hq
      obtain ⟨hmem, hfree⟩ := h.brelse q i hq
      exact ⟨hf.refs q i hqp hmem, fun hq' => hfree (hf.lock i q hqp hq')⟩

/-! ### Reading and releasing a block -/

lemma Inv.moved (h : Inv sb s) {refs : Multiset (Pid × BufId)} {m : CachePc} (hok : c.Ok refs)
    (hsame : s.cache.io.Same c.io) (hp : ∀ l, s.pc p ≠ .commit l) (hm : ∀ l, m ≠ .commit l)
    (hf : Frame p s ({ s with cache := c, refs := refs }.goto p m))
    (hbread : ∀ i dev b, m = .bread i dev b → (p, i) ∈ refs ∧ (c.buf i).Is dev b)
    (hbrelse : ∀ i, m = .brelse i → (p, i) ∈ refs ∧ (c.buf i).lock ≠ some p) :
    Inv sb ({ s with cache := c, refs := refs }.goto p m) ∧ s.Keeps ({ s with cache := c, refs := refs }.goto p m) := by
  have hself := goto_pc_self { s with cache := c, refs := refs } p m
  have hcommit : ∀ {q l}, ({ s with cache := c, refs := refs }.goto p m).pc q = .commit l → s.pc q = .commit l := by
    intro q l hq
    by_cases hqp : q = p
    · subst hqp
      exact absurd (hself.symm.trans hq) (hm l)
    · rwa [hf.pc q hqp] at hq
  refine h.of_frame hf hok (hsame.content.trans h.stored) (fun b hb => h.dirty b ((hsame.dirty b).mp hb)) h.fits
    (fun i dev b hq => hbread i dev b (hself.symm.trans hq)) (fun i hq => hbrelse i (hself.symm.trans hq)) h.outstanding ?_
  intro q l hq
  obtain ⟨hcommitting, hstage, hunique⟩ := h.commit q l (hcommit hq)
  refine ⟨hcommitting, ?_, fun q' l' hq' => hunique q' l' (hcommit hq')⟩
  cases l with
  | writeLog _ | writeHead => exact hstage
  | installTrans tail => exact ⟨hstage.1, fun b hb => hstage.2 b ((hsame.dirty b).mp hb)⟩
  | clear | done => exact fun b hb => hstage b ((hsame.dirty b).mp hb)

lemma Inv.bget (h : Inv sb s) {dev : BitVec 32} (hpc : s.pc p = .idle)
    (hret : s.bget p dev b = some s') : Inv sb s' ∧ s.Keeps s' := by
  unfold CacheRun.bget at hret
  obtain ⟨⟨i, c⟩, hget, hret⟩ := bind_eq_some_iff.mp hret
  cases hret
  obtain ⟨hok, hsame, hgets⟩ := h.ok.bget hget p
  refine h.moved hok hsame (by rw [hpc]; nofun) nofun ⟨?_, ?_, ?_, ?_⟩ ?_ nofun
  · exact fun q hq => goto_pc_of_ne _ _ hq
  · exact fun j huse => (hgets.keeps_used huse).2
  · intro j q _ hlock
    by_cases hj : j = i
    · subst hj
      exact (Bcache.lock_of_bget h.ok.listed hget).symm.trans hlock
    · exact hgets.others j hj ▸ hlock
  · exact fun q j _ hq => Multiset.mem_cons_of_mem hq
  · rintro _ _ _ ⟨rfl, rfl, rfl⟩
    exact ⟨Multiset.mem_cons_self .., hgets.is⟩

lemma Inv.fill (h : Inv sb s) {dev : BitVec 32} (hpc : s.pc p = .bread i dev b)
    (hret : s.cache.fill n p i = some c) :
    Inv sb ({ s with cache := c }.goto p .idle) ∧ s.Keeps ({ s with cache := c }.goto p .idle) := by
  obtain ⟨hok, hsame, -, -, hbuf⟩ := h.ok.fill (h.bread p i dev b hpc).1 hret
  refine h.moved hok hsame (by rw [hpc]; nofun) nofun ?_ nofun nofun
  refine .of_update (fun q hq => goto_pc_of_ne _ _ hq) hbuf (Bbuf.is_self _) ?_ (fun _ _ _ => id)
  exact fun q hq hlock => absurd (Option.some.inj hlock).symm hq

lemma Inv.releasesleep (h : Inv sb s) (hpc : s.pc p = .idle) (hret : s.releasesleep p i = some s') :
    Inv sb s' ∧ s.Keeps s' := by
  unfold CacheRun.releasesleep at hret
  obtain ⟨c, hrelease, hret⟩ := bind_eq_some_iff.mp hret
  cases hret
  obtain ⟨hok, hlock, hio, hbuf⟩ := h.ok.releasesleep hrelease
  refine h.moved hok (hio.symm ▸ .refl h.ok.coherent) (by rw [hpc]; nofun) nofun ?_ nofun ?_
  · exact .of_update (fun q hq => goto_pc_of_ne _ _ hq) hbuf (Bbuf.is_self _) nofun (fun _ _ _ => id)
  · rintro _ ⟨rfl⟩
    refine ⟨(h.ok.locked i p hlock).1, ?_⟩
    rw [hbuf, update_self]
    nofun

lemma Inv.unref (h : Inv sb s) (hpc : s.pc p = .brelse i) :
    Inv sb ({ s with cache := s.cache.unref i, refs := s.refs.erase (p, i) }.goto p .idle) ∧
      s.Keeps ({ s with cache := s.cache.unref i, refs := s.refs.erase (p, i) }.goto p .idle) := by
  obtain ⟨hmem, hlock⟩ := h.brelse p i hpc
  have hok := h.ok
  rw [← Multiset.cons_erase hmem] at hok
  obtain ⟨hok', hio, hbuf⟩ := hok.unref hlock
  refine h.moved hok' (hio.symm ▸ .refl h.ok.coherent) (by rw [hpc]; nofun) nofun ?_ nofun nofun
  refine .of_update (fun q hq => goto_pc_of_ne _ _ hq) hbuf (Bbuf.is_self _) (fun _ _ => id) ?_
  exact fun q j hq hj => (Multiset.mem_erase_of_ne fun heq => hq (congrArg Prod.fst heq)).mpr hj

/-! ### Changing a block -/

/-- The process `p` has changed a buffer, with `log_write` or `bwrite`. -/
lemma Inv.stores (h : Inv sb s) (hpc : s.pc p = .idle) (hs : s.committing ≠ true)
    {lh : List Blockno} {x : Bbuf} (hok : c.Ok s.refs)
    (hcontent : c.io.content = update s.cache.io.content b data)
    (hdirty : ∀ b', c.io.Dirty b' → b' ∈ lh) (hfits : lh.length ≤ sb.nlog - 1)
    (hbuf : c.buf = update s.cache.buf i x) (his : x.Is (s.cache.buf i).dev (s.cache.buf i).blockno)
    (hlock : x.lock = (s.cache.buf i).lock) :
    Inv sb { s with cache := c, lh := lh, stored := update s.stored b data } ∧
      s.Keeps { s with cache := c, lh := lh, stored := update s.stored b data } := by
  have hf : Frame p s { s with cache := c, lh := lh, stored := update s.stored b data } :=
    .of_update (fun _ _ => rfl) hbuf his (fun q _ => hlock ▸ id) (fun _ _ _ => id)
  refine h.of_frame hf hok ?_ hdirty hfits ?_ ?_ h.outstanding (fun q l hq => absurd hq (h.not_commit hs))
  · rw [hcontent, h.stored]
  · exact fun i dev b' hp => absurd (hpc.symm.trans hp) nofun
  · exact fun i hp => absurd (hpc.symm.trans hp) nofun

lemma Inv.logWrite (h : Inv sb s) (hpc : s.pc p = .idle)
    (hret : s.logWrite sb p i data = some s') : Inv sb s' ∧ s.Keeps s' := by
  simp only [CacheRun.logWrite, ite_none_left_eq_some, ne_eq, not_not, not_or, not_le, ge_iff_le,
    not_lt] at hret
  obtain ⟨hlock, ⟨-, hsize⟩, hop, hs'⟩ := hret
  cases hs'
  have hs : s.committing ≠ true := by
    intro hs
    have := h.outstanding hs
    omega
  obtain ⟨hok, hmod⟩ := h.ok.logWrite hlock data
  refine h.stores hpc hs hok hmod.content ?_ ?_ (update_idem ..) ?_ ?_
  · intro b' hb'
    have hmem : b' = (s.cache.buf i).blockno ∨ b' ∈ s.lh := ((hmod.dirty b').mp hb').imp_right (h.dirty b')
    split
    · rename_i hb
      rcases hmem with rfl | hmem
      · exact hb
      · exact hmem
    · rcases hmem with rfl | hmem
      · simp
      · exact List.mem_append_left _ hmem
  · have := h.fits
    split
    · exact this
    · rw [List.length_append, List.length_singleton]
      omega
  · simp [Bcache.store, Bbuf.Is]
  · simp [Bcache.store]

lemma Inv.bwrite (h : Inv sb s) (hpc : s.pc p = .idle)
    (hret : s.bwrite n p i data = some s') : Inv sb s' ∧ s.Keeps s' := by
  obtain ⟨hs, hret⟩ := ite_none_left_eq_some.mp hret
  obtain ⟨c, hwrite, hret⟩ := bind_eq_some_iff.mp hret
  cases hret
  obtain ⟨hok, -, hwritten, hbuf⟩ := h.ok.bwrite hwrite
  refine h.stores hpc hs hok hwritten.content ?_ h.fits hbuf (Bbuf.is_self _) rfl
  exact fun b' hb' => h.dirty b' ((hwritten.dirty b').mp hb').2

/-! ### `commit` -/

lemma Inv.committed (h : Inv sb s) {l l' : CommitPc} {stored : Blockno → Block} {lh : List Blockno}
    (hpc : s.pc p = .commit l) (hok : c.Ok s.refs) (hcontent : c.io.content = stored)
    (hdirty : ∀ b, c.io.Dirty b → b ∈ lh) (hfits : lh.length ≤ sb.nlog - 1)
    (hkeeps : ∀ i, (s.cache.buf i).InUse → (c.buf i).Is (s.cache.buf i).dev (s.cache.buf i).blockno)
    (hlock : ∀ i, (c.buf i).lock = (s.cache.buf i).lock)
    (hstage : ({ s with cache := c, stored := stored, lh := lh }.goto p (.commit l')).Stage sb l') :
    Inv sb ({ s with cache := c, stored := stored, lh := lh }.goto p (.commit l')) ∧
      s.Keeps ({ s with cache := c, stored := stored, lh := lh }.goto p (.commit l')) := by
  obtain ⟨hcommitting, -, hunique⟩ := h.commit p l hpc
  have hself := goto_pc_self { s with cache := c, stored := stored, lh := lh } p (.commit l')
  have hother := @goto_pc_of_ne p { s with cache := c, stored := stored, lh := lh } (.commit l')
  have hp : ∀ q l₀, ({ s with cache := c, stored := stored, lh := lh }.goto p (.commit l')).pc q = .commit l₀ → q = p := by
    intro q l₀ hq
    by_contra hqp
    rw [hother hqp] at hq
    exact hqp (hunique q l₀ hq)
  refine h.of_frame ⟨fun q hq => hother hq, hkeeps, fun i q _ => (hlock i).symm ▸ id, fun _ _ _ => id⟩ hok hcontent hdirty hfits
    (fun _ _ _ hq => absurd (hself.symm.trans hq) nofun) (fun _ hq => absurd (hself.symm.trans hq) nofun) h.outstanding ?_
  intro q l₀ hq
  obtain rfl := hp q l₀ hq
  cases hself.symm.trans hq
  exact ⟨hcommitting, hstage, hp⟩

lemma Inv.goto (h : Inv sb s) {l l' : CommitPc} (hpc : s.pc p = .commit l) (hstage : s.Stage sb l') :
    Inv sb (s.goto p (.commit l')) ∧ s.Keeps (s.goto p (.commit l')) := by
  refine h.committed hpc h.ok h.stored h.dirty h.fits (fun _ _ => ⟨rfl, rfl⟩) (fun _ => rfl) ?_
  cases l' with
  | _ => exact hstage

lemma Inv.wrote (h : Inv sb s) {l l' : CommitPc}
    (hpc : s.pc p = .commit l) (hst : Bcache.Stores s.refs s.cache b data c)
    (hstage : (s.wrote p b data c l').Stage sb l') :
    Inv sb (s.wrote p b data c l') ∧ s.Keeps (s.wrote p b data c l') := by
  refine h.committed hpc hst.ok ?_ ?_ h.fits hst.keeps hst.lock hstage
  · rw [hst.written.content, h.stored]
  · exact fun b' hb' => h.dirty b' ((hst.written.dirty b').mp hb').2

lemma slot_not_home (sb : Superblock) {i : ℕ} (hi : i < sb.nlog - 1) : ¬ sb.Home (sb.slot i) := by
  rw [← Superblock.home_iff]
  exact fun hhome => hhome.2 i hi rfl

lemma logstart_not_home (sb : Superblock) : ¬ sb.Home sb.logstart := by
  rw [← Superblock.home_iff]
  exact fun hhome => hhome.1 rfl

lemma Copied.wrote {m : ℕ} (h : s.Copied sb m)
    (hfits : s.lh.length ≤ sb.nlog - 1) (hlog : ¬ sb.Home b) (hslot : ∀ i < m, i < sb.nlog - 1 → sb.slot i ≠ b) :
    (s.wrote p b data c l).Copied sb m := by
  intro hhome i b' hi hb'
  have hb'home := hhome b' (List.mem_of_getElem? hb')
  have hlt : i < s.lh.length := (List.getElem?_eq_some_iff.mp hb').1
  change update s.stored b data (sb.slot i) = update s.stored b data b'
  have hne : b' ≠ b := by
    rintro rfl
    exact hlog hb'home
  rw [update_of_ne (hslot i hi (by omega)), update_of_ne hne]
  exact h hhome i b' hi hb'

lemma Inv.commit_step (h : Inv sb s) (hpc : s.pc p = .commit l)
    (hret : s.commit sb n p l = some s') : Inv sb s' ∧ s.Keeps s' := by
  obtain ⟨hcommitting, hstage, hunique⟩ := h.commit p l hpc
  cases l with
  | writeLog tail =>
    rw [CacheRun.commit] at hret
    split at hret
    · rename_i b hb
      obtain ⟨⟨data, c⟩, hwrite, hret⟩ := bind_eq_some_iff.mp hret
      cases hret
      obtain ⟨rfl, hst⟩ := h.ok.writeLogBlock hwrite
      apply h.wrote hpc hst
      have hlt : tail < s.lh.length := (List.getElem?_eq_some_iff.mp hb).1
      have hcap : tail < sb.nlog - 1 := hlt.trans_le h.fits
      have hold : (s.wrote p (sb.slot tail) (s.cache.io.content b) c (.writeLog (tail + 1))).Copied sb tail := by
        refine hstage.wrote h.fits (slot_not_home sb hcap) ?_
        intro i hi hi' heq
        exact hi.ne (sb.layout.slot_inj i tail hi' hcap heq)
      intro hhome i b' hi hb'
      obtain hlt' | rfl := Nat.lt_succ_iff_lt_or_eq.mp hi
      · exact hold hhome i b' hlt' hb'
      · obtain rfl : b = b' := Option.some.inj (hb.symm.trans hb')
        have hne : b ≠ sb.slot i := by
          rintro rfl
          exact slot_not_home sb hcap (hhome _ (List.mem_of_getElem? hb'))
        change update s.stored (sb.slot i) _ (sb.slot i) = update s.stored (sb.slot i) _ b
        rw [update_self, update_of_ne hne, h.stored]
    · rename_i hnone
      cases hret
      apply h.goto hpc
      intro hhome i b hi hb
      rw [List.getElem?_eq_none_iff] at hnone
      exact hstage hhome i b (hi.trans_le hnone) hb
  | writeHead =>
    obtain ⟨⟨data, c⟩, hwrite, hret⟩ := bind_eq_some_iff.mp hret
    cases hret
    have hst := h.ok.writeHead hwrite
    apply h.wrote hpc hst
    refine ⟨?_, fun b hb => h.dirty b ((hst.written.dirty b).mp hb).2⟩
    refine Copied.wrote hstage h.fits (logstart_not_home sb) ?_
    exact fun i _ hi heq => sb.layout.slot_ne_head i hi heq
  | installTrans tail =>
    rw [CacheRun.commit] at hret
    split at hret
    · rename_i b hb
      obtain ⟨⟨data, c⟩, hwrite, hret⟩ := bind_eq_some_iff.mp hret
      cases hret
      obtain ⟨rfl, hst⟩ := h.ok.installBlock hwrite
      apply h.wrote hpc hst
      have hlt : tail < s.lh.length := (List.getElem?_eq_some_iff.mp hb).1
      refine ⟨?_, ?_⟩
      · intro hhome i b' hi hb'
        have hsame : s.cache.io.content (sb.slot tail) = s.stored b := by
          rw [h.stored]
          exact hstage.1 hhome tail b hlt hb
        change update s.stored b _ (sb.slot i) = update s.stored b _ b'
        rw [hsame, update_eq_self]
        exact hstage.1 hhome i b' hi hb'
      · intro b' hb'
        obtain ⟨hne, hdirty⟩ := (hst.written.dirty b').mp hb'
        have hmem := hstage.2 b' hdirty
        rw [List.drop_eq_getElem_cons hlt, (List.getElem?_eq_some_iff.mp hb).2] at hmem
        exact (List.mem_cons.mp hmem).resolve_left hne
    · rename_i hnone
      cases hret
      apply h.goto hpc
      intro b hb
      have := hstage.2 b hb
      rw [List.getElem?_eq_none_iff] at hnone
      rw [List.drop_eq_nil_of_le hnone] at this
      cases this
  | clear =>
    obtain ⟨⟨data, c⟩, hwrite, hret⟩ := bind_eq_some_iff.mp hret
    cases hret
    have hst := h.ok.writeHead hwrite
    have hclean : ∀ b, ¬ c.io.Dirty b := fun b hb => hstage b ((hst.written.dirty b).mp hb).2
    refine h.committed hpc hst.ok ?_ (fun b hb => absurd hb (hclean b)) (Nat.zero_le _) hst.keeps hst.lock hclean
    change c.io.content = update s.stored sb.logstart data
    rw [hst.written.content, h.stored]
  | done =>
    cases hret
    have hself := goto_pc_self { s with committing := false } p .idle
    have hother := @goto_pc_of_ne p { s with committing := false } .idle
    refine h.of_frame (.of_pc (fun q hq => hother hq) rfl rfl) h.ok h.stored h.dirty h.fits
      (fun _ _ _ hq => absurd (hself.symm.trans hq) nofun) (fun _ hq => absurd (hself.symm.trans hq) nofun) nofun ?_
    intro q l hq
    by_cases hqp : q = p
    · subst hqp
      exact absurd (hself.symm.trans hq) nofun
    · exact absurd (hunique q l ((hother hqp).symm.trans hq)) hqp

lemma Inv.endOp (h : Inv sb s) (hret : s.endOp p = some s') : Inv sb s' ∧ s.Keeps s' := by
  obtain ⟨hs, hret⟩ := ite_none_left_eq_some.mp hret
  split at hret
  · cases hret
    set l₀ : CommitPc := if s.lh.length > 0 then .writeLog 0 else .done
    have hself := goto_pc_self { s with outstanding := 0, committing := true } p (.commit l₀)
    have hother := @goto_pc_of_ne p { s with outstanding := 0, committing := true } (.commit l₀)
    have hp : ∀ q l, ({ s with outstanding := 0, committing := true }.goto p (.commit l₀)).pc q = .commit l → q = p := by
      intro q l hq
      by_contra hqp
      exact h.not_commit hs ((hother hqp).symm.trans hq)
    refine h.of_frame (.of_pc (fun q hq => hother hq) rfl rfl) h.ok h.stored h.dirty h.fits
      (fun _ _ _ hq => absurd (hself.symm.trans hq) nofun) (fun _ hq => absurd (hself.symm.trans hq) nofun)
      (fun _ => rfl) ?_
    intro q l hq
    obtain rfl := hp q l hq
    refine ⟨rfl, ?_, hp⟩
    cases hself.symm.trans hq
    change Stage sb _ (if s.lh.length > 0 then .writeLog 0 else .done)
    by_cases hempty : s.lh.length > 0
    · rw [if_pos hempty]
      exact fun _ i b hi => absurd hi (Nat.not_lt_zero i)
    · rw [if_neg hempty]
      intro b hb
      have hmem := h.dirty b hb
      rw [List.eq_nil_of_length_eq_zero (by omega : s.lh.length = 0)] at hmem
      cases hmem
  · cases hret
    exact ⟨⟨h.ok, h.stored, h.dirty, h.fits, h.bread, h.brelse, fun hs' => absurd hs' hs,
      fun q l hq => absurd hq (h.not_commit hs)⟩, fun _ _ => ⟨rfl, rfl⟩⟩

lemma Inv.step (h : Inv sb s) {e : CacheEvent} (hstep : step sb n e s = some s') : Inv sb s' ∧ s.Keeps s' := by
  cases e with
  | bget p dev b =>
    obtain ⟨hpc, hret⟩ := ite_none_right_eq_some.mp hstep
    exact h.bget hpc hret
  | fill p =>
    rw [CacheRun.step] at hstep
    split at hstep
    · rename_i i dev b hpc
      obtain ⟨c, hfill, hret⟩ := bind_eq_some_iff.mp hstep
      cases hret
      exact h.fill hpc hfill
    · cases hstep
  | logWrite p i data =>
    obtain ⟨hpc, hret⟩ := ite_none_right_eq_some.mp hstep
    exact h.logWrite hpc hret
  | bwrite p i data =>
    obtain ⟨hpc, hret⟩ := ite_none_right_eq_some.mp hstep
    exact h.bwrite hpc hret
  | releasesleep p i =>
    obtain ⟨hpc, hret⟩ := ite_none_right_eq_some.mp hstep
    exact h.releasesleep hpc hret
  | unref p =>
    rw [CacheRun.step] at hstep
    split at hstep
    · rename_i i hpc
      cases hstep
      exact h.unref hpc
    · cases hstep
  | beginOp =>
    obtain ⟨hs, hret⟩ := ite_none_left_eq_some.mp hstep
    obtain ⟨-, hs'⟩ := ite_none_left_eq_some.mp hret
    cases hs'
    exact ⟨⟨h.ok, h.stored, h.dirty, h.fits, h.bread, h.brelse, fun hs' => absurd hs' hs,
      fun q l hq => absurd hq (h.not_commit hs)⟩, fun _ _ => ⟨rfl, rfl⟩⟩
  | endOp p =>
    obtain ⟨-, hret⟩ := ite_none_right_eq_some.mp hstep
    exact h.endOp hret
  | commit p =>
    rw [CacheRun.step] at hstep
    split at hstep
    · rename_i l hpc
      exact h.commit_step hpc hstep
    · cases hstep

lemma Inv.stored_of_commit (h : Inv sb s) (hpc : s.pc p = .commit l)
    (hret : s.commit sb n p l = some s') (hlh : ∀ b ∈ s.lh, sb.Home b) (hb : sb.Home b) :
    s'.stored b = s.stored b := by
  obtain ⟨-, hstage, -⟩ := h.commit p l hpc
  have hne : ∀ {b'}, ¬ sb.Home b' → b ≠ b' := by
    rintro _ hlog rfl
    exact hlog hb
  cases l with
  | writeLog tail =>
    rw [CacheRun.commit] at hret
    split at hret
    · rename_i b' hb'
      obtain ⟨⟨data, c⟩, -, hret⟩ := bind_eq_some_iff.mp hret
      cases hret
      have hlt : tail < s.lh.length := (List.getElem?_eq_some_iff.mp hb').1
      exact update_of_ne (hne (slot_not_home sb (hlt.trans_le h.fits))) ..
    · cases hret
      rfl
  | writeHead | clear =>
    obtain ⟨⟨data, c⟩, -, hret⟩ := bind_eq_some_iff.mp hret
    cases hret
    exact update_of_ne (hne (logstart_not_home sb)) ..
  | installTrans tail =>
    rw [CacheRun.commit] at hret
    split at hret
    · rename_i b' hb'
      obtain ⟨⟨data, c⟩, hinstall, hret⟩ := bind_eq_some_iff.mp hret
      cases hret
      obtain ⟨rfl, -⟩ := h.ok.installBlock hinstall
      have hlt : tail < s.lh.length := (List.getElem?_eq_some_iff.mp hb').1
      change update s.stored b' _ b = _
      rw [h.stored, hstage.1 hlh tail b' hlt hb', update_eq_self]
    · cases hret
      rfl
  | done =>
    cases hret
    rfl

end CacheRun
end Xv6Bfs
